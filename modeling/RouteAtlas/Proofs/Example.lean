import RouteAtlas.Example
import RouteAtlas.Proofs.Text.Case

/-!
# Rules for example values

No rule sees the case of an ASCII name. Within a name of letters, digits and low lines no word
begins, so only a whole name is temporal there.
-/

namespace RouteAtlas

theorem Text.isAscii_of_afterAgreeing {w t r : Text} (ht : t.isAscii)
    (h : afterAgreeing w t = some r) : r.isAscii := by
  obtain ⟨s, rfl, -⟩ := agree_of_afterAgreeing h
  rw [isAscii, List.all_append, Bool.and_eq_true] at ht
  exact ht.2

theorem Text.any_afterAgreeing_lower {w t : Text} {p : Text → Bool}
    (hp : ∀ s, isAscii s → p (lower s) = p s) (h : isAscii t) :
    (afterAgreeing w (lower t)).any p = (afterAgreeing w t).any p := by
  rw [afterAgreeing_lower w h]
  cases hr : afterAgreeing w t with
  | none => rfl
  | some r => exact hp r (isAscii_of_afterAgreeing h hr)

namespace Example

variable {name : Text}

section Case

theorem mentions_lower (words : List Text) (h : name.isAscii) :
    mentions words name.lower = mentions words name := by
  have hw : ∀ w : Text, Text.finds (fun t => (Text.afterAgreeing w t).isSome) name.lower =
      Text.finds (fun t => (Text.afterAgreeing w t).isSome) name := fun w =>
    Text.finds_lower (fun s hs => by rw [Text.afterAgreeing_lower w hs, Option.isSome_map]) h
  simp only [mentions, hw]

theorem isEnd_lower {r : Text} (h : r.isAscii) :
    (r.lower.isEmpty || r.lower == "\n") = (r.isEmpty || r == "\n") := by
  cases r with
  | nil => rfl
  | cons c r =>
    obtain ⟨hc, hr⟩ := Text.isAscii_cons.1 h
    have hn : c.mapped CaseTable.lower = '\n' ↔ c = '\n' :=
      CodePoint.of_isAscii (p := fun c => c.mapped CaseTable.lower = '\n' ↔ c = '\n') (by decide) hc
    have hb : ("\n" : Text) = ['\n'] := rfl
    rw [Text.lower_cons h, hb]
    cases r with
    | nil => simp [Text.lower, Text.lowerFrom, hn]
    | cons d r => simp [Text.lower_cons hr]

theorem endsIn_lower (word : Text) (h : name.isAscii) :
    endsIn word name.lower = endsIn word name :=
  Text.finds_lower (fun _ hs => Text.any_afterAgreeing_lower (fun _ hr => isEnd_lower hr) hs) h

theorem any_isWord_head?_lower {r : Text} (h : r.isAscii) :
    r.lower.head?.any CodePoint.isWord = r.head?.any CodePoint.isWord := by
  cases r with
  | nil => rfl
  | cons c r =>
    rw [Text.lower_cons h, List.head?_cons, List.head?_cons, Option.any_some, Option.any_some,
      CodePoint.isWord_lower (Text.isAscii_cons.1 h).1]

theorem temporalFrom_lower (inWord : Bool) (h : name.isAscii) :
    temporalFrom inWord name.lower = temporalFrom inWord name := by
  induction name generalizing inWord with
  | nil => rfl
  | cons c r ih =>
    obtain ⟨hc, hr⟩ := Text.isAscii_cons.1 h
    have hw : ∀ w : Text, (Text.afterAgreeing w (Text.lower (c :: r))).any
        (fun rest => !rest.head?.any CodePoint.isWord) = (Text.afterAgreeing w (c :: r)).any
        (fun rest => !rest.head?.any CodePoint.isWord) := fun w =>
      Text.any_afterAgreeing_lower (fun s hs => by rw [any_isWord_head?_lower hs]) h
    rw [Text.lower_cons h] at hw ⊢
    simp only [temporalFrom, hw, CodePoint.isWord_lower hc, ih _ hr]

end Case

section Words

theorem temporalFrom_true (h : ∀ c ∈ name, c.isWord) : temporalFrom true name = false := by
  induction name with
  | nil => rfl
  | cons c r ih =>
    obtain ⟨hc, hr⟩ := List.forall_mem_cons.1 h
    rw [temporalFrom, hc, ih hr]
    rfl

/-- In a text of word characters a word stands alone only if it is the whole text. -/
theorem any_afterAgreeing_iff {w : Text} (h : ∀ c ∈ name, c.isWord) :
    (Text.afterAgreeing w name).any (fun rest => !rest.head?.any CodePoint.isWord) ↔
      Text.Agree w name := by
  constructor
  · intro ha
    obtain ⟨r, hr, hw⟩ := (Option.any_eq_true _ _).1 ha
    obtain ⟨s, rfl, hs⟩ := Text.agree_of_afterAgreeing hr
    cases r with
    | nil => rwa [List.append_nil]
    | cons d r => simp [h d (by simp)] at hw
  · intro ha
    have hr := Text.afterAgreeing_append ha []
    rw [List.append_nil] at hr
    rw [hr]
    rfl

theorem isTemporal_iff (ha : name.isAscii) (h : ∀ c ∈ name, c.isWord) :
    isTemporal name ↔ name.lower ∈ temporalNames.map Text.lower := by
  have hn : ∀ w ∈ temporalNames, (Text.Agree w name ↔ w.lower = name.lower) := fun w hw =>
    Text.agree_iff_lower_eq ((by decide : ∀ w ∈ temporalNames, Text.isAscii w) w hw) ha
  have hm : name.lower ∈ temporalNames.map Text.lower ↔ ∃ w ∈ temporalNames, Text.Agree w name := by
    rw [List.mem_map]
    exact exists_congr fun w => and_congr_right fun hw => (hn w hw).symm
  rw [hm]
  cases name with
  | nil =>
    refine iff_of_false Bool.false_ne_true fun ⟨w, hw, ha⟩ => ?_
    exact (by decide : ∀ w ∈ temporalNames, w ≠ []) w hw (List.forall₂_nil_right_iff.1 ha)
  | cons c r =>
    obtain ⟨hc, hr⟩ := List.forall_mem_cons.1 h
    rw [isTemporal, temporalFrom, hc, temporalFrom_true hr]
    simp only [Bool.not_false, Bool.true_and, Bool.or_false, List.any_eq_true,
      any_afterAgreeing_iff h]

end Words

def isPlain (c : CodePoint) : Bool := c.isLatin || c.isAsciiDigit || c == '_'

theorem isAscii_of_isPlain {c : CodePoint} (h : isPlain c) : c.isAscii := by
  simp only [isPlain, Bool.or_eq_true, beq_iff_eq] at h
  rcases h with (h | h) | rfl
  · exact of_within (p := (· < 128)) (by decide) h
  · exact of_within (p := (· < 128)) (by decide) h
  · rfl

theorem isWord_of_isPlain {c : CodePoint} (h : isPlain c) : c.isWord :=
  CodePoint.of_isAscii (p := fun c => isPlain c → c.isWord) (by decide) (isAscii_of_isPlain h) h

/-- The temporal names that no rule takes before, in lower case. -/
def timedNames : List Text :=
  ["date", "createdat", "updatedat", "deletedat", "lastloginat", "expiresat"]

section Rules

variable {other : Text}

theorem ofName_alike (timestamp : Text) (hn : name.isAscii) (ho : other.isAscii)
    (h : name.lower = other.lower) : ofName timestamp name = ofName timestamp other ∨
      ofName timestamp name = .text ("string_" ++ name) ∧
      ofName timestamp other = .text ("string_" ++ other) := by
  have he : endsIn "id" name = endsIn "id" other := by
    rw [← endsIn_lower _ hn, h, endsIn_lower _ ho]
  have hm : ∀ words, mentions words name = mentions words other := fun words => by
    rw [← mentions_lower _ hn, h, mentions_lower _ ho]
  have ht : isTemporal name = isTemporal other := by
    rw [isTemporal, ← temporalFrom_lower _ hn, h, temporalFrom_lower _ ho, isTemporal]
  simp only [ofName, he, hm, ht, h]
  split_ifs <;> first | exact .inl rfl | exact .inr ⟨rfl, rfl⟩

theorem ofName_of_mem_timedNames (hn : name.isAscii) (h : name.lower ∈ timedNames)
    (timestamp : Text) : ofName timestamp name = .text timestamp := by
  have hd : ∀ d ∈ timedNames, endsIn "id" d = false ∧
      mentions ["count", "age", "price", "amount", "total"] d = false ∧
      Text.occursIn "email" d = false ∧ mentions ["token", "access", "refresh"] d = false ∧
      temporalFrom false d = true := by decide
  obtain ⟨hi, hc, he, ht, hp⟩ := hd _ h
  rw [endsIn_lower _ hn] at hi
  rw [mentions_lower _ hn] at hc ht
  rw [temporalFrom_lower _ hn] at hp
  simp [ofName, hi, hc, he, ht, isTemporal, hp]

theorem ofName_eq_of_not_timed (h : mentions ["token", "access", "refresh"] name ∨
    isTemporal name = false) (timestamp later : Text) :
    ofName timestamp name = ofName later name := by
  rcases h with h | h <;> simp [ofName, h]

/-- ASCII names that differ only in case fall under one rule. Of the names of letters, digits and
low lines exactly the timed ones have an example that depends on the timestamp. -/
theorem ofName_classifies (timestamp : Text) :
    (∀ name other : Text, name.isAscii → other.isAscii → name.lower = other.lower →
      ofName timestamp name = ofName timestamp other ∨
      ofName timestamp name = .text ("string_" ++ name) ∧
      ofName timestamp other = .text ("string_" ++ other)) ∧
    ∀ name : Text, (∀ c ∈ name, isPlain c) →
      (name.lower ∈ timedNames → ofName timestamp name = .text timestamp) ∧
      (name.lower ∉ timedNames → ∀ later, ofName timestamp name = ofName later name) := by
  refine ⟨fun _ _ => ofName_alike timestamp, fun name h => ?_⟩
  have ha : name.isAscii := List.all_eq_true.2 fun c hc => isAscii_of_isPlain (h c hc)
  refine ⟨fun hm => ofName_of_mem_timedNames ha hm timestamp, fun hm later => ?_⟩
  refine ofName_eq_of_not_timed ?_ timestamp later
  by_cases ht : isTemporal name
  · have hd : ∀ d ∈ temporalNames.map Text.lower, d ∈ timedNames ∨
        mentions ["token", "access", "refresh"] d := by decide
    have hl := (isTemporal_iff ha fun c hc => isWord_of_isPlain (h c hc)).1 ht
    rw [← mentions_lower _ ha]
    exact .inl ((hd _ hl).resolve_left hm)
  · exact .inr (Bool.eq_false_iff.2 ht)

theorem ofName_classifies_names :
    (ofName "now" "Created_At" = ofName "now" "created_at" ∨
      ofName "now" "Created_At" = .text "string_Created_At" ∧
      ofName "now" "created_at" = .text "string_created_at") ∧
    ofName "now" "createdAT" = .text "now" ∧
    ofName "now" "tokenExpiry" = ofName "later" "tokenExpiry" := by
  have h := ofName_classifies "now"
  exact ⟨h.1 _ _ (by decide) (by decide) (by decide), (h.2 _ (by decide)).1 (by decide),
    (h.2 _ (by decide)).2 (by decide) "later"⟩

end Rules

end Example

end RouteAtlas
