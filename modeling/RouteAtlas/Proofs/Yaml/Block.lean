import RouteAtlas.Proofs.Yaml.ScalarText

/-!
# Blocks as tokens

The text of a value begins behind its lead, ends before a line that is indented no deeper, and is
scanned as the tokens of the value.
-/

namespace RouteAtlas.Yaml

open Scan Written

section Tokens

def anchorTokens : Option Nat → List Token
  | none => []
  | some n => [.anchor (anchorLabel n)]

/-- Whether a sequence stands at the indentation of the mapping around it. -/
def hangs (lead : Lead) (anchor : Option Nat) : Bool :=
  lead == .simpleKey || (lead == .markedKey && anchor.isSome)

def keyLead (k : Text) : Lead := if isSimpleKey k then .simpleKey else .markedKey

def scalarToken (v : Json) : Token := .scalar (isPlain v) (form v)

mutual

def valueTokens (lead : Lead) : Outline → List Token
  | .scalar v => [scalarToken v]
  | .alias n => [.alias (anchorLabel n)]
  | .list anchor os =>
    anchorTokens anchor ++
      if os.isEmpty then emptyTokens false
      else if hangs lead anchor then itemsTokens os
      else .blockSequence :: (itemsTokens os ++ [.blockEnd])
  | .map anchor es =>
    anchorTokens anchor ++
      if es.isEmpty then emptyTokens true
      else .blockMapping :: (entriesTokens es ++ [.blockEnd])

def itemsTokens : List Outline → List Token
  | [] => []
  | o :: os => .blockEntry :: (valueTokens .item o ++ itemsTokens os)

def entriesTokens : List (Text × Outline) → List Token
  | [] => []
  | (k, o) :: es =>
    .key :: scalarToken (.str k) :: .value :: (valueTokens (keyLead k) o ++ entriesTokens es)

end

end Tokens

/-- A key that comes back from a column. -/
structure KeepsKey (indent : Nat) (k : Text) : Prop where
  text : KeepsText (indent + 2) k
  length : isSimpleKey k → (inLine k).length ≤ 1024

instance (indent : Nat) (k : Text) : Decidable (KeepsKey indent k) :=
  decidable_of_iff (KeepsText (indent + 2) k ∧ (isSimpleKey k → (inLine k).length ≤ 1024))
    ⟨fun h => ⟨h.1, h.2⟩, fun h => ⟨h.text, h.length⟩⟩

mutual

/-- An outline all of whose scalars come back from where they are written, behind a line that is
indented to a column. -/
def Outline.Keeps (indent : Nat) : Outline → Prop
  | .scalar v => KeepsScalar (indent + 2) v
  | .alias _ => True
  | .list _ os => KeepsItems (indent + 2) os
  | .map _ es => KeepsEntries (indent + 2) es

def KeepsItems (indent : Nat) : List Outline → Prop
  | [] => True
  | o :: os => o.Keeps indent ∧ KeepsItems indent os

def KeepsEntries (indent : Nat) : List (Text × Outline) → Prop
  | [] => True
  | (k, o) :: es => KeepsKey indent k ∧ o.Keeps indent ∧ KeepsEntries indent es

end

theorem KeepsKey.mono {m n : Nat} {k : Text} (h : KeepsKey n k) (hm : m ≤ n) : KeepsKey m k :=
  ⟨h.text.mono (by omega), h.length⟩

mutual

theorem Outline.Keeps.mono {m n : Nat} {o : Outline} (h : o.Keeps n) (hm : m ≤ n) : o.Keeps m := by
  cases o with
  | scalar v => exact KeepsScalar.mono h (by omega)
  | «alias» n => trivial
  | list a os => exact KeepsItems.mono h (show m + 2 ≤ n + 2 by omega)
  | map a es => exact KeepsEntries.mono h (show m + 2 ≤ n + 2 by omega)

theorem KeepsItems.mono {m n : Nat} {os : List Outline} (h : KeepsItems n os) (hm : m ≤ n) :
    KeepsItems m os := by
  cases os with
  | nil => trivial
  | cons o os => exact ⟨h.1.mono hm, KeepsItems.mono h.2 hm⟩

theorem KeepsEntries.mono {m n : Nat} {es : List (Text × Outline)} (h : KeepsEntries n es)
    (hm : m ≤ n) : KeepsEntries m es := by
  cases es with
  | nil => trivial
  | cons e es =>
    obtain ⟨k, o⟩ := e
    exact ⟨h.1.mono hm, h.2.1.mono hm, KeepsEntries.mono h.2.2 hm⟩

end

/-- A text that ends the line before it and goes on at a column no deeper than `n`. -/
def EndsLine (n : Nat) (t : Text) : Prop :=
  ∃ m r, t = newLine m ++ r ∧ m ≤ n ∧ BeginsToken r ∧ NoSeparator (spaces m ++ r)

section Lines

variable {pre r t : Text} {ts : List Token} {i : Int} {is : List Int} {allowed : Bool}
  {ks : List (Nat × KeyPlace)} {s : Scan} {n : Nat}

theorem EndsLine.mono {m : Nat} (h : EndsLine m t) (hm : m ≤ n) : EndsLine n t := by
  obtain ⟨k, r, rfl, hk, hr, hs⟩ := h
  exact ⟨k, r, rfl, hk.trans hm, hr, hs⟩

theorem EndsLine.beginsGap (h : EndsLine n t) : BeginsGap t := by
  obtain ⟨m, r, rfl, -⟩ := h
  rintro c ⟨⟩
  decide

theorem beginsGap_space (r : Text) : BeginsGap (.char ' ' :: r) := by
  rintro c ⟨⟩
  decide

theorem beginsGap_newLine (n : Nat) (r : Text) : BeginsGap (newLine n ++ r) := by
  rintro c ⟨⟩
  decide

/-- What was remembered on a line is forgotten at its end. -/
theorem leads_settled (ht : EndsLine n t) (hk : Slack pre ks)
    (h : Leads s (behind pre t ts i is allowed ks)) : Leads s (behind pre t ts i is false []) := by
  obtain ⟨m, r, rfl, -, hr, -⟩ := ht
  exact h.trans (.of_arrive_eq (by rw [arrive_newLine hr hk, arrive_newLine hr (slack_nil pre)]))

/-- A block collection ends where a line is indented less. -/
theorem leads_blockEnd {j : Int} (ht : EndsLine n t) (hi : (n : Int) < i)
    (h : Leads s (behind pre t ts i (j :: is) false [])) :
    Leads s (behind pre t (.blockEnd :: ts) j is false []) := by
  obtain ⟨m, r, rfl, hm, hr, -⟩ := ht
  refine h.trans (.of_arrive_eq ?_)
  rw [arrive_newLine hr (slack_nil pre), arrive_newLine hr (slack_nil pre), unwind_close (by omega)]

/-- A new line that is not indented less than the block around it. -/
theorem arrive_line (hr : BeginsToken r) (hk : Slack pre ks) (hi : i ≤ n) :
    (behind pre (newLine n ++ r) ts i is allowed ks).arrive =
      .ok (behind (pre ++ newLine n) r ts i is true []) := by
  rw [arrive_newLine hr hk, unwind_of_le hi]

/-- A blank on the line of the block around it. -/
theorem arrive_space (hr : BeginsToken r) (hi : i ≤ columnOf pre) :
    (behind pre (spaces 1 ++ r) ts i is allowed []).arrive =
      .ok (behind (pre ++ spaces 1) r ts i is allowed []) := by
  have hi' : i ≤ (columnOf pre : Int) + (1 : Nat) := by omega
  obtain ⟨ks, -, hks, ha⟩ := arrive_spaces hr (slack_nil pre) 1 hi'
  rw [ha, hks rfl]

theorem noSeparator_mark {x : CodePoint} (hx : x ≠ '.') (hr : x = '-' → BeginsGap r) (n : Nat) :
    NoSeparator (spaces n ++ x :: r) := by
  intro pre
  cases n with
  | succ n => exact noSeparator_spaces (Nat.succ_pos n) _ pre
  | zero =>
    by_cases hd : x = '-'
    · exact atSeparator_behind_gap (hr hd)
    · exact Cursor.atSeparator_behind_cons hd hx

end Lines

section Parts

variable {pre r t : Text} {ts ts' : List Token} {i : Int} {is is' : List Int} {allowed : Bool}
  {ks : List (Nat × KeyPlace)} {s : Scan} {n : Nat}

theorem leads_scalarText {v : Json} (hv : KeepsScalar (n + 2) v) (column : Nat) (ht : EndsLine n t)
    (hn : n < columnOf pre) :
    Leads (behind pre (.char ' ' :: (scalarText (n + 2) column v ++ t)) ts n is allowed [])
      (behind (pre ++ .char ' ' :: scalarText (n + 2) column v) t (scalarToken v :: ts) n is
        false []) := by
  obtain ⟨m, r, rfl, hm, hr, hs⟩ := ht
  have hu := scalarSpells_scalarText (show 0 < n + 2 by omega) (Nat.le_refl _) hv column
  have ha : (behind pre (spaces 1 ++ (scalarText (n + 2) column v ++ (newLine m ++ r))) ts n is
      allowed []).arrive = .ok (behind (pre ++ spaces 1) (scalarText (n + 2) column v ++
        (newLine m ++ r)) ts n is allowed []) :=
    arrive_space (hu.beginsToken _) (by omega)
  have hc : columnOf (pre ++ spaces 1) = columnOf pre + 1 := columnOf_append isBreak_spaces pre
  have := leads_scalar hu (by omega) (slack_nil _) (by omega) (show (m : Int) ≤ n by omega) hr hs ha
  simpa [spaces, scalarToken] using this

/-- A scalar behind the mark of its key. -/
theorem leads_markedKey {k : Text} (hk : KeepsText (n + 2) k) (hn : n = columnOf pre)
    (ho : Opens .blockMapping n ts i is ts' is') (hr : BeginsGap r)
    (ha : s.arrive = .ok (behind pre
      ("? " ++ ofText true (n + 2) (n + 2) k ++ newLine n ++ ":" ++ r) ts i is true [])) :
    Leads s (behind (pre ++ ("? " ++ ofText true (n + 2) (n + 2) k ++ newLine n ++ ":")) r
      (.value :: scalarToken (.str k) :: .key :: ts') n is' true []) := by
  have hcolon : BeginsToken (.char ':' :: r) :=
    beginsToken_cons (by decide) (by decide) (by decide) (by decide) r
  have hend : EndsLine n (newLine n ++ .char ':' :: r) :=
    ⟨n, _, rfl, Nat.le_refl n, hcolon, noSeparator_mark (by decide) (fun h => by cases h) n⟩
  have hmark := leads_keyMark (slack_nil pre) (hn ▸ ho) (beginsGap_space _)
    (by simpa [Text.ofString] using ha)
  have hcolumn : columnOf (pre ++ [.char '?']) = n + 1 := by
    rw [columnOf_append (by decide), ← hn]
    rfl
  rw [← hn] at hmark
  have hscalar : Leads (behind (pre ++ [.char '?']) (.char ' ' ::
      (scalarText (n + 2) (n + 2) (.str k) ++
      (newLine n ++ .char ':' :: r))) (.key :: ts') n is' true []) (behind (pre ++ [.char '?'] ++
        .char ' ' :: scalarText (n + 2) (n + 2) (.str k)) (newLine n ++ .char ':' :: r)
          (scalarToken (.str k) :: .key :: ts') n is' false []) :=
    leads_scalarText (show KeepsScalar (n + 2) (.str k) from hk) (n + 2) hend (by omega)
  have hline := congrArg (Nat.cast (R := Int)) (columnOf_newLine (pre ++ [.char '?'] ++
    .char ' ' :: scalarText (n + 2) (n + 2) (.str k)) n).symm
  have := (hmark.trans hscalar).trans
    (leads_valueMark hline hr (arrive_line hcolon (slack_nil _) (Int.le_refl _)))
  simpa [Text.ofString, scalarText] using this

theorem unbroken_of_isSimpleKey {k : Text} (h : isSimpleKey k) :
    ∀ c ∈ k, isScalarBreak c = false := by
  simp only [isSimpleKey, Bool.and_eq_true, Bool.not_eq_true', List.any_eq_false] at h
  simpa using h.2

theorem keyText_fst (k : Text) : (keyText n k).1 = keyLead k := by
  unfold keyText keyLead
  split <;> rfl

theorem leads_key {k : Text} (hk : KeepsKey n k) (hn : n = columnOf pre)
    (ho : Opens .blockMapping n ts i is ts' is') (hi : i ≤ n) (hr : BeginsGap r)
    (ha : s.arrive = .ok (behind pre ((keyText n k).2.1 ++ r) ts i is true [])) :
    Leads s (behind (pre ++ (keyText n k).2.1) r (.value :: scalarToken (.str k) :: .key :: ts') n
      is' (keyLead k != .simpleKey) []) := by
  by_cases hs : isSimpleKey k
  · have hkey : keyText n k = (.simpleKey, ofText false n n k ++ ":",
        n + (ofText false n n k ++ ":").length) := by simp [keyText, hs]
    have hlead : (keyLead k != .simpleKey) = false := by simp [keyLead, hs]
    have hb := unbroken_of_isSimpleKey hs
    have hu := ofText_inLine hb n n
    have hspells (m : Nat) : ScalarSpells m (ofText false n n k) (scalarToken (.str k)) :=
      scalarSpells_ofText (fun h => by cases h) (fun _ => hb) (hk.text.mono (by omega)) n
    rw [hkey] at ha ⊢
    rw [hlead]
    have := leads_simpleKey hspells (hu ▸ isBreak_inLine hk.text.whole hb)
      (hu ▸ hk.length hs) (by omega) (hn ▸ ho) hr (by simpa [Text.ofString] using ha)
    simpa [Text.ofString, ← hn] using this
  · have hkey : (keyText n k).2.1 = "? " ++ ofText true (n + 2) (n + 2) k ++ newLine n ++ ":" := by
      simp [keyText, hs]
    have hlead : (keyLead k != .simpleKey) = true := by simp [keyLead, hs]
    rw [hkey] at ha ⊢
    rw [hlead]
    exact leads_markedKey hk.text hn ho hr ha

theorem isLabel_anchorLabel (n : Nat) : ∀ c ∈ anchorLabel n, isLabel c := by
  have hid : ∀ c ∈ Text.ofString "id", isLabel c := by decide
  have hz : isLabel (.char '0') := by decide
  have hn : ∀ c ∈ Text.ofNat n, isLabel c := isLabel_ofInt n
  intro c hc
  simp only [anchorLabel, Decimal.padded, List.mem_append, List.mem_replicate] at hc
  rcases hc with hc | ⟨-, rfl⟩ | hc
  · exact hid c hc
  · exact hz
  · exact hn c hc

theorem anchorLabel_ne_nil (n : Nat) : anchorLabel n ≠ [] := by simp [anchorLabel, Text.ofString]

theorem beginsToken_labelMark (isAlias : Bool) (r : Text) :
    BeginsToken (labelMark isAlias :: r) := by
  cases isAlias <;> exact beginsToken_cons (by decide) (by decide) (by decide) (by decide) r

theorem leads_spacedLabel (isAlias : Bool) (label : Nat) (hn : n < columnOf pre)
    (hr : BeginsGap r) :
    ∃ ks', Slack (pre ++ .char ' ' :: labelMark isAlias :: anchorLabel label) ks' ∧ Leads
      (behind pre (.char ' ' :: labelMark isAlias :: anchorLabel label ++ r) ts n is allowed [])
      (behind (pre ++ .char ' ' :: labelMark isAlias :: anchorLabel label) r
        (labelToken isAlias (anchorLabel label) :: ts) n is false ks') := by
  have hc : columnOf (pre ++ spaces 1) = columnOf pre + 1 := columnOf_append isBreak_spaces pre
  have ha : (behind pre (spaces 1 ++ (labelMark isAlias :: anchorLabel label ++ r)) ts n is allowed
      []).arrive = .ok (behind (pre ++ spaces 1) (labelMark isAlias :: anchorLabel label ++ r) ts n
        is allowed []) := arrive_space (beginsToken_labelMark isAlias _) (by omega)
  obtain ⟨ks', hks, h⟩ := leads_label isAlias (isLabel_anchorLabel label) (anchorLabel_ne_nil label)
    (slack_nil _) (by omega) hr ha
  have hks := hks.append (labelMark isAlias :: anchorLabel label)
  rw [List.append_assoc] at hks h
  exact ⟨ks', hks, h⟩

theorem leads_anchor (anchor : Option Nat) (hn : n < columnOf pre) (hr : BeginsGap r) :
    ∃ ks', Slack (pre ++ anchorText anchor) ks' ∧ (anchor = none → ks' = []) ∧
      Leads (behind pre (anchorText anchor ++ r) ts n is allowed [])
        (behind (pre ++ anchorText anchor) r ((anchorTokens anchor).reverse ++ ts) n is
          (allowed && anchor.isNone) ks') := by
  cases anchor with
  | none =>
    exact ⟨[], slack_nil _, fun _ => rfl, .of_arrive_eq (by simp [anchorText, anchorTokens])⟩
  | some label =>
    obtain ⟨ks', hks, h⟩ := leads_spacedLabel false label hn hr
    refine ⟨ks', hks, by simp, ?_⟩
    rw [Option.isNone_some, Bool.and_false]
    exact h

theorem columnOf_anchorText (anchor : Option Nat) :
    columnOf pre ≤ columnOf (pre ++ anchorText anchor) := by
  cases anchor with
  | none => simp [anchorText]
  | some label =>
    have hb : ∀ c ∈ anchorText (some label), isBreak c = false := by
      intro c hc
      rcases List.mem_append.1 hc with hc | hc
      · exact (by decide : ∀ c ∈ Text.ofString " &", isBreak c = false) c hc
      · exact (Bool.or_eq_false_iff.1 (isGap_of_isLabel (isLabel_anchorLabel label c hc))).2
    rw [columnOf_append hb]
    omega

theorem leads_emptyText (anchor : Option Nat) (isMap : Bool) (hn : n < columnOf pre)
    (ht : EndsLine n t) :
    Leads (behind pre (anchorText anchor ++ .char ' ' :: emptyText isMap ++ t) ts n is allowed [])
      (behind (pre ++ (anchorText anchor ++ .char ' ' :: emptyText isMap)) t
        ((anchorTokens anchor ++ emptyTokens isMap).reverse ++ ts) n is false []) := by
  obtain ⟨ks, hks, -, hanchor⟩ := leads_anchor (r := .char ' ' :: emptyText isMap ++ t) anchor hn
    (beginsGap_space _)
  have hr : BeginsToken (emptyText isMap ++ t) := by
    cases isMap <;> exact beginsToken_cons (by decide) (by decide) (by decide) (by decide) _
  have hcolumn : columnOf pre ≤ columnOf (pre ++ anchorText anchor) := columnOf_anchorText anchor
  have hc : columnOf (pre ++ anchorText anchor ++ spaces 1) =
    columnOf (pre ++ anchorText anchor) + 1 := columnOf_append isBreak_spaces _
  have hi : (n : Int) ≤ (columnOf (pre ++ anchorText anchor) : Int) + (1 : Nat) := by omega
  obtain ⟨ks', hks', -, ha⟩ := arrive_spaces hr hks 1 hi
  obtain ⟨ks'', hks'', hempty⟩ := leads_empty isMap (hks'.append (spaces 1)) (by omega) ha
  have := leads_settled ht (hks''.append _) (hanchor.trans hempty)
  simpa [spaces] using this

/-- What stands before the first entry of a collection, which begins in column `inner`. -/
theorem leads_opening {lead : Lead} (anchor : Option Nat) {inner : Nat} {x : Scan}
    (hn : n < columnOf pre) (hc : lead ≠ .simpleKey → columnOf pre = n + 1) (hi : n ≤ inner)
    (hl : lead ≠ .simpleKey → anchor = none → inner = n + 2) (hr : BeginsToken r)
    (h : columnOf (pre ++ (anchorText anchor ++ opening lead anchor inner)) = inner → ∀ s : Scan,
      s.arrive = .ok (behind (pre ++ (anchorText anchor ++ opening lead anchor inner)) r
        ((anchorTokens anchor).reverse ++ ts) n is true []) → Leads s x) :
    Leads (behind pre (anchorText anchor ++ opening lead anchor inner ++ r) ts n is
      (lead != .simpleKey) []) x := by
  by_cases hnew : lead = .simpleKey ∨ anchor.isSome
  · have ho : opening lead anchor inner = newLine inner := by simp [opening, hnew]
    obtain ⟨ks, hks, -, hanchor⟩ := leads_anchor (r := newLine inner ++ r) anchor hn
      (beginsGap_newLine inner r)
    rw [ho, ← List.append_assoc pre] at h
    rw [ho, List.append_assoc]
    exact hanchor.trans (h (columnOf_newLine _ inner) _ (arrive_line hr hks (by omega)))
  · obtain ⟨hs, ha⟩ := not_or.1 hnew
    obtain rfl : anchor = none := by simpa using ha
    have ho : opening lead none inner = spaces 1 := by simp [opening, hs, spaces, Text.ofString]
    have hlead : (lead != .simpleKey) = true := by simpa using hs
    have hcolumn : columnOf (pre ++ spaces 1) = columnOf pre + 1 :=
      columnOf_append isBreak_spaces pre
    have := hc hs
    have := hl hs rfl
    rw [ho] at h
    rw [ho, hlead]
    exact h (by simp only [anchorText, List.nil_append]; omega) _ (arrive_space hr (by omega))

end Parts

section Values

variable {lead : Lead} {indent inner column : Nat} {anchor : Option Nat} {o : Outline}
  {os : List Outline} {k : Text} {es : List (Text × Outline)}

theorem valueText_list : valueText lead indent column (.list anchor (o :: os)) =
    anchorText anchor ++ opening lead anchor (itemIndent lead anchor indent) ++
      ("-" ++
        valueText .item (itemIndent lead anchor indent) (itemIndent lead anchor indent + 1) o ++
        itemsText (itemIndent lead anchor indent) os) := by
  simp [valueText]

theorem valueText_map : valueText lead indent column (.map anchor ((k, o) :: es)) =
    anchorText anchor ++ opening lead anchor (indent + 2) ++ ((keyText (indent + 2) k).2.1 ++
      valueText (keyLead k) (indent + 2) (keyText (indent + 2) k).2.2 o ++
        entriesText (indent + 2) es) := by
  rw [valueText, ← keyText_fst (n := indent + 2) k]
  simp

theorem itemsText_cons : itemsText indent (o :: os) =
    newLine indent ++ ("-" ++ valueText .item indent (indent + 1) o ++ itemsText indent os) := by
  simp [itemsText]

theorem entriesText_cons : entriesText indent ((k, o) :: es) =
    newLine indent ++ ((keyText indent k).2.1 ++
      valueText (keyLead k) indent (keyText indent k).2.2 o ++ entriesText indent es) := by
  rw [entriesText, ← keyText_fst (n := indent) k]
  simp

theorem beginsGap_anchorText (anchor : Option Nat) {r : Text} (hr : BeginsGap r) :
    BeginsGap (anchorText anchor ++ r) := by
  cases anchor with
  | none => exact hr
  | some n => exact beginsGap_space _

theorem beginsGap_opening (lead : Lead) (anchor : Option Nat) (inner : Nat) (r : Text) :
    BeginsGap (opening lead anchor inner ++ r) := by
  unfold opening
  split
  · exact beginsGap_newLine inner r
  · exact beginsGap_space r

theorem beginsGap_valueText (lead : Lead) (indent column : Nat) (o : Outline) (r : Text) :
    BeginsGap (valueText lead indent column o ++ r) := by
  cases o with
  | scalar v => exact beginsGap_space _
  | «alias» n => exact beginsGap_space _
  | list anchor os =>
    cases os with
    | nil =>
      rw [valueText, List.append_assoc]
      exact beginsGap_anchorText anchor (beginsGap_space _)
    | cons o os =>
      rw [valueText_list]
      simp only [List.append_assoc]
      exact beginsGap_anchorText anchor (beginsGap_opening lead anchor _ _)
  | map anchor es =>
    cases es with
    | nil =>
      rw [valueText, List.append_assoc]
      exact beginsGap_anchorText anchor (beginsGap_space _)
    | cons e es =>
      obtain ⟨k, o⟩ := e
      rw [valueText_map]
      simp only [List.append_assoc]
      exact beginsGap_anchorText anchor (beginsGap_opening lead anchor _ _)

/-- A key is marked, or it is a scalar before a colon. -/
theorem keyText_cases (hk : KeepsKey indent k) :
    (∃ r, (keyText indent k).2.1 = .char '?' :: .char ' ' :: r) ∨
      ∃ u, (keyText indent k).2.1 = u ++ [.char ':'] ∧
        ScalarSpells 0 u (scalarToken (.str k)) := by
  by_cases hs : isSimpleKey k
  · have hb : ∀ c ∈ k, isScalarBreak c = false := by
      simp only [isSimpleKey, Bool.and_eq_true, Bool.not_eq_true', List.any_eq_false] at hs
      simpa using hs.2
    exact .inr ⟨ofText false indent indent k, by simp [keyText, hs, Text.ofString],
      scalarSpells_ofText (fun h => by cases h) (fun _ => hb)
        (hk.text.mono (Nat.le_add_right indent 2)) indent⟩
  · exact .inl ⟨_, by simp [keyText, hs, Text.ofString]; rfl⟩

/-- A value begins behind the column of its key, and right behind it if the key is marked. -/
theorem columnOf_keyText (hk : KeepsKey indent k) {pre : Text} (hn : columnOf pre = indent) :
    indent < columnOf (pre ++ (keyText indent k).2.1) ∧
      (keyLead k ≠ .simpleKey → columnOf (pre ++ (keyText indent k).2.1) = indent + 1) := by
  by_cases hs : isSimpleKey k
  · have hb := unbroken_of_isSimpleKey hs
    have hkey : (keyText indent k).2.1 = inLine k ++ [.char ':'] := by
      simp [keyText, hs, ofText_inLine hb, Text.ofString]
    have hu : ∀ c ∈ inLine k ++ [.char ':'], isBreak c = false := by
      simpa [or_imp, forall_and] using ⟨isBreak_inLine hk.text.whole hb, by decide⟩
    rw [hkey, columnOf_append hu, hn]
    simp [keyLead, hs]
  · have hkey : pre ++ (keyText indent k).2.1 =
        pre ++ (Text.ofString "? " ++ ofText true (indent + 2) (indent + 2) k) ++ newLine indent ++
          [.char ':'] := by
      simp [keyText, hs, Text.ofString]
    have hcolumn : columnOf (pre ++ (keyText indent k).2.1) = indent + 1 := by
      rw [hkey, columnOf_append (by decide), columnOf_newLine]
      rfl
    exact ⟨by omega, fun _ => hcolumn⟩

theorem beginsToken_keyText (hk : KeepsKey indent k) (r : Text) :
    BeginsToken ((keyText indent k).2.1 ++ r) := by
  rcases keyText_cases hk with ⟨r', h⟩ | ⟨u, h, hu⟩
  · rw [h]
    exact beginsToken_cons (by decide) (by decide) (by decide) (by decide) _
  · rw [h, List.append_assoc]
    exact hu.beginsToken _

theorem noSeparator_keyText (hk : KeepsKey indent k) {r : Text} (hr : BeginsGap r) (n : Nat) :
    NoSeparator (spaces n ++ ((keyText indent k).2.1 ++ r)) := by
  rcases keyText_cases hk with ⟨r', h⟩ | ⟨u, h, hu⟩
  · rw [h]
    exact noSeparator_mark (by decide) (fun h => by cases h) n
  · cases n with
    | succ n => exact noSeparator_spaces (Nat.succ_pos n) _
    | zero =>
      rw [h, List.append_assoc]
      exact hu.noSeparator (.inr ⟨r, rfl, hr⟩)

theorem endsLine_items {t : Text} (ht : EndsLine indent t) (os : List Outline) :
    EndsLine indent (itemsText indent os ++ t) := by
  cases os with
  | nil => exact ht
  | cons o os =>
    rw [itemsText_cons]
    have hgap := beginsGap_valueText .item indent (indent + 1) o (itemsText indent os ++ t)
    exact ⟨indent, .char '-' :: (valueText .item indent (indent + 1) o ++
      (itemsText indent os ++ t)),
      by simp [Text.ofString], Nat.le_refl _,
      beginsToken_cons (by decide) (by decide) (by decide) (by decide) _,
      noSeparator_mark (by decide) (fun _ => hgap) _⟩

theorem endsLine_entries {t : Text} (ht : EndsLine indent t) (hes : KeepsEntries indent es) :
    EndsLine indent (entriesText indent es ++ t) := by
  cases es with
  | nil => exact ht
  | cons e es =>
    obtain ⟨k, o⟩ := e
    rw [entriesText_cons]
    simp only [List.append_assoc]
    exact ⟨indent, _, rfl, Nat.le_refl _, beginsToken_keyText hes.1 _,
      noSeparator_keyText hes.1 (beginsGap_valueText (keyLead k) indent _ o _) _⟩

def ScansValue (lead : Lead) (indent column : Nat) (o : Outline) : Prop :=
  ∀ (pre t : Text) (ts : List Token) (is : List Int), indent < columnOf pre →
    (lead ≠ .simpleKey → columnOf pre = indent + 1) → EndsLine indent t →
      Leads (behind pre (valueText lead indent column o ++ t) ts indent is (lead != .simpleKey) [])
        (behind (pre ++ valueText lead indent column o) t
          ((valueTokens lead o).reverse ++ ts) indent is false [])

def ScansItems (indent : Nat) (os : List Outline) : Prop :=
  ∀ (pre t : Text) (ts : List Token) (is : List Int), EndsLine indent t →
    Leads (behind pre (itemsText indent os ++ t) ts indent is false [])
      (behind (pre ++ itemsText indent os) t ((itemsTokens os).reverse ++ ts) indent is false [])

def ScansEntries (indent : Nat) (es : List (Text × Outline)) : Prop :=
  ∀ (pre t : Text) (ts : List Token) (is : List Int), EndsLine indent t →
    Leads (behind pre (entriesText indent es ++ t) ts indent is false [])
      (behind (pre ++ entriesText indent es) t
        ((entriesTokens es).reverse ++ ts) indent is false [])

theorem leads_items (ho : ScansValue .item indent (indent + 1) o) (hos : ScansItems indent os)
    {pre t : Text} {ts ts' : List Token} {i : Int} {is is' : List Int} {s : Scan}
    (hn : columnOf pre = indent) (hopen : Opens .blockSequence indent ts i is ts' is')
    (ht : EndsLine indent t)
    (ha : s.arrive = .ok (behind pre ("-" ++ valueText .item indent (indent + 1) o ++
      itemsText indent os ++ t) ts i is true [])) :
    Leads s (behind (pre ++ ("-" ++ valueText .item indent (indent + 1) o ++ itemsText indent os)) t
      ((itemsTokens (o :: os)).reverse ++ ts') indent is' false []) := by
  have hcolumn : columnOf (pre ++ [.char '-']) = indent + 1 := by
    rw [columnOf_append (by decide), hn]
    rfl
  have hmark := leads_item (slack_nil pre) (hn.symm ▸ hopen)
    (beginsGap_valueText .item indent (indent + 1) o (itemsText indent os ++ t))
    (by simpa [Text.ofString] using ha)
  rw [hn] at hmark
  have hvalue := ho (pre ++ [.char '-']) (itemsText indent os ++ t) (.blockEntry :: ts') is'
    (by omega) (fun _ => hcolumn) (endsLine_items ht os)
  have hitems := hos (pre ++ [.char '-'] ++ valueText .item indent (indent + 1) o) t
    ((valueTokens .item o).reverse ++ .blockEntry :: ts') is' ht
  have := (hmark.trans hvalue).trans hitems
  simpa [itemsTokens, Text.ofString] using this

theorem leads_entries (hk : KeepsKey indent k) (hes : KeepsEntries indent es)
    (ho : ScansValue (keyLead k) indent (keyText indent k).2.2 o) (hos : ScansEntries indent es)
    {pre t : Text} {ts ts' : List Token} {i : Int} {is is' : List Int} {s : Scan}
    (hn : columnOf pre = indent) (hopen : Opens .blockMapping indent ts i is ts' is')
    (hi : i ≤ indent) (ht : EndsLine indent t)
    (ha : s.arrive = .ok (behind pre ((keyText indent k).2.1 ++
      valueText (keyLead k) indent (keyText indent k).2.2 o ++ entriesText indent es ++ t) ts i is
        true [])) :
    Leads s (behind (pre ++ ((keyText indent k).2.1 ++
      valueText (keyLead k) indent (keyText indent k).2.2 o ++ entriesText indent es)) t
        ((entriesTokens ((k, o) :: es)).reverse ++ ts') indent is' false []) := by
  have hkey := leads_key hk hn.symm hopen hi
    (beginsGap_valueText (keyLead k) indent (keyText indent k).2.2 o (entriesText indent es ++ t))
    (by simpa only [List.append_assoc] using ha)
  have hvalue := ho (pre ++ (keyText indent k).2.1) (entriesText indent es ++ t)
    (.value :: scalarToken (.str k) :: .key :: ts') is' (columnOf_keyText hk hn).1
    (columnOf_keyText hk hn).2 (endsLine_entries ht hes)
  have hentries := hos
    (pre ++ (keyText indent k).2.1 ++ valueText (keyLead k) indent (keyText indent k).2.2 o) t
    ((valueTokens (keyLead k) o).reverse ++ .value :: scalarToken (.str k) :: .key :: ts') is' ht
  have := (hkey.trans hvalue).trans hentries
  simpa [entriesTokens] using this

theorem scansItems_cons (ho : ScansValue .item indent (indent + 1) o) (hos : ScansItems indent os) :
    ScansItems indent (o :: os) := by
  intro pre t ts is ht
  rw [itemsText_cons, ← List.append_assoc pre, List.append_assoc (newLine indent)]
  refine leads_items ho hos (columnOf_newLine pre indent) (.old rfl) ht
    (arrive_line ?_ (slack_nil pre) (Int.le_refl _))
  exact beginsToken_cons (by decide) (by decide) (by decide) (by decide) _

theorem scansEntries_cons (hk : KeepsKey indent k) (hes : KeepsEntries indent es)
    (ho : ScansValue (keyLead k) indent (keyText indent k).2.2 o) (hos : ScansEntries indent es) :
    ScansEntries indent ((k, o) :: es) := by
  intro pre t ts is ht
  rw [entriesText_cons, ← List.append_assoc pre, List.append_assoc (newLine indent)]
  refine leads_entries hk hes ho hos (columnOf_newLine pre indent) (.old rfl) (Int.le_refl _) ht
    (arrive_line ?_ (slack_nil pre) (Int.le_refl _))
  simp only [List.append_assoc]
  exact beginsToken_keyText hk _

theorem scansValue_list
    (ho : ScansValue .item (itemIndent lead anchor indent) (itemIndent lead anchor indent + 1) o)
    (hos : ScansItems (itemIndent lead anchor indent) os) :
    ScansValue lead indent column (.list anchor (o :: os)) := by
  intro pre t ts is hn hc ht
  rw [valueText_list, List.append_assoc (anchorText anchor ++ _), ← List.append_assoc pre]
  by_cases hh : hangs lead anchor
  · have hinner : itemIndent lead anchor indent = indent := by
      rw [itemIndent, if_pos (by simpa [hangs] using hh)]
    rw [hinner] at ho hos ⊢
    refine leads_opening anchor hn hc (Nat.le_refl indent) (fun hs ha => ?_)
      (beginsToken_cons (by decide) (by decide) (by decide) (by decide) _) fun hcolumn s ha => ?_
    · simp [hangs, hs, ha] at hh
    · have := leads_items ho hos hcolumn (.old rfl) ht ha
      simpa [valueTokens, hh] using this
  · have hinner : itemIndent lead anchor indent = indent + 2 := by
      rw [itemIndent, if_neg (by simpa [hangs] using hh)]
    rw [hinner] at ho hos ⊢
    refine leads_opening anchor hn hc (Nat.le_add_right indent 2) (fun _ _ => rfl)
      (beginsToken_cons (by decide) (by decide) (by decide) (by decide) _) fun hcolumn s ha => ?_
    have := leads_blockEnd ht (by omega) (leads_items ho hos hcolumn (.new (by omega))
      (ht.mono (Nat.le_add_right indent 2)) ha)
    simpa [valueTokens, hh] using this

theorem scansValue_map (hk : KeepsKey (indent + 2) k) (hes : KeepsEntries (indent + 2) es)
    (ho : ScansValue (keyLead k) (indent + 2) (keyText (indent + 2) k).2.2 o)
    (hos : ScansEntries (indent + 2) es) :
    ScansValue lead indent column (.map anchor ((k, o) :: es)) := by
  intro pre t ts is hn hc ht
  rw [valueText_map, List.append_assoc (anchorText anchor ++ _), ← List.append_assoc pre]
  refine leads_opening anchor hn hc (Nat.le_add_right indent 2) (fun _ _ => rfl) ?_
    fun hcolumn s ha => ?_
  · simp only [List.append_assoc]
    exact beginsToken_keyText hk _
  · have := leads_blockEnd ht (by omega) (leads_entries hk hes ho hos hcolumn (.new (by omega))
      (by omega) (ht.mono (Nat.le_add_right indent 2)) ha)
    simpa [valueTokens] using this

theorem scansValue_scalar {v : Json} (h : KeepsScalar (indent + 2) v) :
    ScansValue lead indent column (.scalar v) := by
  intro pre t ts is hn hc ht
  have hscalar : Leads (behind pre (.char ' ' :: (scalarText (indent + 2) (column + 1) v ++ t)) ts
      indent is (lead != .simpleKey) []) (behind (pre ++ .char ' ' ::
        scalarText (indent + 2) (column + 1) v) t (scalarToken v :: ts) indent is false []) :=
    leads_scalarText h (column + 1) ht hn
  simpa [valueText, valueTokens, Text.ofString] using hscalar

theorem scansValue_alias (n : Nat) : ScansValue lead indent column (.alias n) := by
  intro pre t ts is hn hc ht
  obtain ⟨ks, hks, hlabel⟩ := leads_spacedLabel true n hn ht.beginsGap
  exact leads_settled ht hks hlabel

theorem scansValue_empty (isMap : Bool) : ScansValue lead indent column
    (if isMap then .map anchor [] else .list anchor []) := by
  intro pre t ts is hn hc ht
  have hempty : Leads (behind pre (anchorText anchor ++ .char ' ' :: emptyText isMap ++ t) ts indent
      is (lead != .simpleKey) []) _ := leads_emptyText anchor isMap hn ht
  cases isMap <;> simpa [valueText, valueTokens, emptyText, Text.ofString] using hempty

end Values

mutual

theorem scans_value {o : Outline} {indent : Nat} (h : o.Keeps indent) (lead : Lead) (column : Nat) :
    ScansValue lead indent column o := by
  cases o with
  | scalar v => exact scansValue_scalar h
  | «alias» n => exact scansValue_alias n
  | list anchor os =>
    cases os with
    | nil => exact scansValue_empty false
    | cons o os =>
      have hle : itemIndent lead anchor indent ≤ indent + 2 := by
        unfold itemIndent
        split <;> omega
      exact scansValue_list (scans_value (h.1.mono hle) _ _) (scans_items (h.2.mono hle))
  | map anchor es =>
    cases es with
    | nil => exact scansValue_empty true
    | cons e es =>
      obtain ⟨k, o⟩ := e
      exact scansValue_map h.1 h.2.2 (scans_value h.2.1 _ _) (scans_entries h.2.2)

theorem scans_items {os : List Outline} {indent : Nat} (h : KeepsItems indent os) :
    ScansItems indent os := by
  cases os with
  | nil =>
    intro pre t ts is ht
    exact .of_arrive_eq (by simp [itemsText, itemsTokens])
  | cons o os => exact scansItems_cons (scans_value h.1 _ _) (scans_items h.2)

theorem scans_entries {es : List (Text × Outline)} {indent : Nat} (h : KeepsEntries indent es) :
    ScansEntries indent es := by
  cases es with
  | nil =>
    intro pre t ts is ht
    exact .of_arrive_eq (by simp [entriesText, entriesTokens])
  | cons e es =>
    obtain ⟨k, o⟩ := e
    exact scansEntries_cons h.1 h.2.2 (scans_value h.2.1 _ _) (scans_entries h.2.2)

end

end RouteAtlas.Yaml
