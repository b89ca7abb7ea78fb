import RouteAtlas.Proofs.Yaml.Block

/-!
# Documents as tokens

The text of a mapping is scanned to its end. It holds ordinary characters only.
-/

namespace RouteAtlas.Yaml

open Scan Written

section Ordinary

def AllOrdinary (t : Text) : Prop := ∀ c ∈ t, isOrdinary c

theorem ScalarSpells.allOrdinary {n : Nat} {u : Text} {token : Token} (h : ScalarSpells n u token) :
    AllOrdinary u := by
  cases h with
  | plain ht h => exact h.isOrdinary
  | @quoted double w t h =>
    have hq : Yaml.isOrdinary (quoteMark double) := by cases double <;> decide
    simpa [AllOrdinary, hq] using h.isOrdinary

@[simp] theorem allOrdinary_append {u v : Text} :
    AllOrdinary (u ++ v) ↔ AllOrdinary u ∧ AllOrdinary v := by
  simp [AllOrdinary, or_imp, forall_and]

theorem allOrdinary_marks : AllOrdinary "-" ∧ AllOrdinary "? " ∧ AllOrdinary ":" ∧
    AllOrdinary " " ∧ AllOrdinary " &" ∧ AllOrdinary " *" ∧ AllOrdinary " []" ∧
      AllOrdinary " \x7b\x7d" := by
  unfold AllOrdinary
  decide

theorem allOrdinary_newLine (n : Nat) : AllOrdinary (newLine n) := isOrdinary_newLine n

theorem allOrdinary_anchorLabel (n : Nat) : AllOrdinary (anchorLabel n) :=
  fun c hc => isOrdinary_of_isLabel (isLabel_anchorLabel n c hc)

theorem allOrdinary_anchorText (anchor : Option Nat) : AllOrdinary (anchorText anchor) := by
  cases anchor with
  | none => simp [anchorText, AllOrdinary]
  | some n => simp [anchorText, allOrdinary_marks, allOrdinary_anchorLabel]

theorem allOrdinary_opening (lead : Lead) (anchor : Option Nat) (inner : Nat) :
    AllOrdinary (opening lead anchor inner) := by
  unfold opening
  split
  · exact allOrdinary_newLine inner
  · exact allOrdinary_marks.2.2.2.1

theorem allOrdinary_keyText {n : Nat} {k : Text} (hk : KeepsKey n k) :
    AllOrdinary (keyText n k).2.1 := by
  unfold keyText
  split
  · rename_i hs
    have hspells : ScalarSpells 0 (ofText false n n k) (scalarToken (.str k)) :=
      scalarSpells_ofText (fun h => by cases h) (fun _ => unbroken_of_isSimpleKey hs)
        (hk.text.mono (Nat.le_add_right n 2)) n
    simpa [allOrdinary_marks] using hspells.allOrdinary
  · have hspells : ScalarSpells 0 (ofText true (n + 2) (n + 2) k) (scalarToken (.str k)) :=
      scalarSpells_ofText (fun _ => ⟨Nat.succ_pos _, Nat.zero_le _⟩) (fun h => by cases h) hk.text _
    simpa [allOrdinary_marks, allOrdinary_newLine] using hspells.allOrdinary

mutual

theorem allOrdinary_valueText {o : Outline} {indent : Nat} (h : o.Keeps indent) (lead : Lead)
    (column : Nat) : AllOrdinary (valueText lead indent column o) := by
  cases o with
  | scalar v =>
    have hv := (scalarSpells_scalarText (show 0 < indent + 2 by omega) (Nat.zero_le _) h
      (column + 1)).allOrdinary
    simpa [valueText, allOrdinary_marks] using hv
  | «alias» n => simp [valueText, allOrdinary_marks, allOrdinary_anchorLabel]
  | list anchor os =>
    cases os with
    | nil => simp [valueText, allOrdinary_marks, allOrdinary_anchorText]
    | cons o os =>
      have hle : itemIndent lead anchor indent ≤ indent + 2 := by
        unfold itemIndent
        split <;> omega
      have ho := allOrdinary_valueText (h.1.mono hle) .item (itemIndent lead anchor indent + 1)
      have hos := allOrdinary_itemsText (h.2.mono hle)
      simp [valueText_list, allOrdinary_anchorText, allOrdinary_opening, allOrdinary_marks, ho, hos]
  | map anchor es =>
    cases es with
    | nil => simp [valueText, allOrdinary_marks, allOrdinary_anchorText]
    | cons e es =>
      obtain ⟨k, o⟩ := e
      have hk := allOrdinary_keyText h.1
      have ho := allOrdinary_valueText h.2.1 (keyLead k) (keyText (indent + 2) k).2.2
      have hes := allOrdinary_entriesText h.2.2
      simp [valueText_map, allOrdinary_anchorText, allOrdinary_opening, hk, ho, hes]

theorem allOrdinary_itemsText {os : List Outline} {indent : Nat} (h : KeepsItems indent os) :
    AllOrdinary (itemsText indent os) := by
  cases os with
  | nil => simp [itemsText, AllOrdinary]
  | cons o os =>
    have ho := allOrdinary_valueText h.1 .item (indent + 1)
    have hos := allOrdinary_itemsText h.2
    simp [itemsText_cons, allOrdinary_newLine, allOrdinary_marks, ho, hos]

theorem allOrdinary_entriesText {es : List (Text × Outline)} {indent : Nat}
    (h : KeepsEntries indent es) : AllOrdinary (entriesText indent es) := by
  cases es with
  | nil => simp [entriesText, AllOrdinary]
  | cons e es =>
    obtain ⟨k, o⟩ := e
    have hk := allOrdinary_keyText h.1
    have ho := allOrdinary_valueText h.2.1 (keyLead k) (keyText indent k).2.2
    have hes := allOrdinary_entriesText h.2.2
    simp [entriesText_cons, allOrdinary_newLine, hk, ho, hes]

end

end Ordinary

section Documents

variable {pre : Text} {ts ts' : List Token} {s : Scan} {i : Int} {is : List Int} {fuel : Nat}

/-- At the end of a text the blocks that are open are closed. -/
theorem run_of_leads_end (hs : Leads s (behind pre (newLine 0) ts i is false [])) (hi : i ≤ 0)
    (hclose : (behind (pre ++ newLine 0) [] ts i is true []).unwind (-1) =
      behind (pre ++ newLine 0) [] ts' (-1) [] true [])
    (hf : s.cursor.rest.length < fuel) : run fuel s = .streamEnd :: ts' := by
  have harrive : (behind pre (newLine 0 ++ []) ts i is false []).arrive =
      .ok (behind (pre ++ newLine 0) [] ts i is true []) :=
    arrive_line beginsToken_nil (slack_nil pre) hi
  have htake : (behind (pre ++ newLine 0) [] ts i is true []).take =
      .ok (behind (pre ++ newLine 0) [] (.streamEnd :: ts') (-1) [] false []) := by
    rw [show (behind (pre ++ newLine 0) [] ts i is true []).take =
      (behind (pre ++ newLine 0) [] ts i is true []).closeAll.map
        fun s => s.push .streamEnd from rfl,
      closeAll, hclose, dropKey_slack (slack_nil _)]
    rfl
  rw [List.append_nil] at harrive
  exact run_of_leads hs harrive htake rfl hf

theorem ofText_of_run {t : Text} (ht : AllOrdinary t)
    (h : run (t.length + 2) (behind [] t [] (-1) [] true []) = ts) :
    Token.ofText t = ts.reverse := by
  have hp : t.all isPrintable = true := by
    simpa using fun c hc => isPrintable_of_isOrdinary (ht c hc)
  rw [Token.ofText, if_pos hp, ← h]
  rfl

theorem documentText_map (anchor : Option Nat) (k : Text) (o : Outline)
    (es : List (Text × Outline)) :
    documentText (.map anchor ((k, o) :: es)) = (keyText 0 k).2.1 ++
      valueText (keyLead k) 0 (keyText 0 k).2.2 o ++ entriesText 0 es ++ newLine 0 := by
  rw [documentText, ← keyText_fst (n := 0) k]
  rfl

theorem allOrdinary_documentText (anchor : Option Nat) {es : List (Text × Outline)}
    (h : KeepsEntries 0 es) : AllOrdinary (documentText (.map anchor es)) := by
  cases es with
  | nil => exact (by unfold AllOrdinary; decide : AllOrdinary "\x7b\x7d\n")
  | cons e es =>
    obtain ⟨k, o⟩ := e
    rw [documentText_map]
    simp [allOrdinary_keyText h.1, allOrdinary_valueText h.2.1, allOrdinary_entriesText h.2.2,
      allOrdinary_newLine]

theorem ofText_documentText (anchor : Option Nat) {es : List (Text × Outline)}
    (h : KeepsEntries 0 es) : Token.ofText (documentText (.map anchor es)) =
      valueTokens .item (.map none es) ++ [.streamEnd] := by
  cases es with
  | nil =>
    have hempty : Token.ofText "\x7b\x7d\n" = [.flowMapping, .flowMappingEnd, .streamEnd] := by
      decide +kernel
    simpa [documentText, valueTokens, anchorTokens, emptyTokens] using hempty
  | cons e es =>
    obtain ⟨k, o⟩ := e
    have hk := h.1
    have hend : EndsLine 0 (newLine 0) := ⟨0, [], by simp, Nat.le_refl 0, beginsToken_nil, by
      intro pre
      rfl⟩
    have harrive :
        (behind [] (documentText (.map anchor ((k, o) :: es))) [] (-1) [] true []).arrive =
          .ok (behind [] (documentText (.map anchor ((k, o) :: es))) [] (-1) [] true []) := by
      have hr : BeginsToken (documentText (.map anchor ((k, o) :: es))) := by
        rw [documentText_map, List.append_assoc, List.append_assoc]
        exact beginsToken_keyText hk _
      obtain ⟨ks, -, hks, ha⟩ := arrive_spaces hr (slack_nil []) 0 (show (-1 : Int) ≤ 0 by decide)
      obtain rfl := hks rfl
      exact ha
    have hentries := leads_entries hk h.2.2 (scans_value h.2.1 _ _) (scans_entries h.2.2) rfl
      (.new (by decide)) (by decide) hend (documentText_map anchor k o es ▸ harrive)
    have hclose (pre : Text) (ts : List Token) : (behind pre [] ts 0 [-1] true []).unwind (-1) =
        behind pre [] (.blockEnd :: ts) (-1) [] true [] := by
      rw [unwind_close (by decide), unwind_of_le (Int.le_refl _)]
    rw [ofText_of_run (allOrdinary_documentText anchor h)
      (run_of_leads_end (documentText_map anchor k o es ▸ hentries) (Int.le_refl 0) (hclose _ _)
        (by simp [behind]))]
    simp [valueTokens, anchorTokens]

end Documents

end RouteAtlas.Yaml
