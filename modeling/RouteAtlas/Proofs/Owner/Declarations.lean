import Mathlib.Data.List.Basic
import Mathlib.Tactic.Common
import RouteAtlas.Owner.Exports
import RouteAtlas.Proofs.Text.Search
import RouteAtlas.Proofs.Text.Word

/-!
# Names that are declared

A form reads words, a declaration word and a name up to the first mark. So whatever it reads across
the beginning of another declaration has the same name.
-/

namespace RouteAtlas

namespace CodePoint

variable {c : CodePoint}

theorem isBlank_of_isWord (h : c.isWord) : c.isBlank = false :=
  isBlank_of_isName (by simp [isName, h])

theorem isWord_of_isBlank (h : c.isBlank) : c.isWord = false := by
  by_contra hw
  simp [isBlank_of_isWord (by simpa using hw)] at h

end CodePoint

namespace Owner

variable {suffix x r s t : Text} {marks : List CodePoint}

def IsMark (c : CodePoint) : Prop := c = '=' ∨ c = '('

instance : DecidablePred IsMark := fun _ => inferInstanceAs (Decidable (_ ∨ _))

/-- A name that ends in the suffix and has something before it. -/
def Suffixed (suffix x : Text) : Prop := ∃ q, q ≠ [] ∧ x = q ++ suffix

theorem IsMark.isBlank {c : CodePoint} (h : IsMark c) : c.isBlank = false := by
  rcases h with rfl | rfl <;> decide

theorem IsMark.isWord {c : CodePoint} (h : IsMark c) : c.isWord = false := by
  rcases h with rfl | rfl <;> decide

theorem not_isMark_of_isBlank {c : CodePoint} (h : c.isBlank) : ¬ IsMark c := by
  intro hm
  simp [hm.isBlank] at h

theorem not_isMark_of_isWord {c : CodePoint} (h : c.isWord) : ¬ IsMark c := by
  intro hm
  simp [hm.isWord] at h

section Named

theorem isWord_head?_gap_append {gap t : Text} {m : CodePoint} (hb : gap.isBlank) (hm : IsMark m) :
    ∀ c ∈ (gap ++ m :: t).head?, c.isWord = false := by
  cases gap with
  | nil => simpa using hm.isWord
  | cons d gap =>
    have hd : d.isBlank := Text.forall_of_isBlank hb d (by simp)
    simpa using CodePoint.isWord_of_isBlank hd

theorem named?_eq_some (hs : ∀ c ∈ suffix, c.isWord) (hm : ∀ m ∈ marks, IsMark m)
    (h : named? suffix marks t = some (x, r)) :
    Suffixed suffix x ∧ (∀ c ∈ x, c.isWord) ∧
      ∃ gap m, t = x ++ (gap ++ m :: r) ∧ gap.isBlank ∧ m ∈ marks := by
  obtain ⟨⟨fromSuffix, rest⟩, hf, h⟩ := Option.bind_eq_some_iff.1 h
  obtain ⟨q, s, rfl, hq, hw, hk⟩ := Text.exists_of_afterSomeRun hf
  obtain ⟨behind, ha, hk⟩ := Option.bind_eq_some_iff.1 hk
  obtain rfl := Text.eq_append_of_after ha
  obtain ⟨gap, hb, he⟩ := Text.exists_append_trimLeft behind
  cases hc : behind.trimLeft with
  | nil => simp [hc] at hk
  | cons c r' =>
    simp only [hc] at hk
    split at hk
    · rename_i hcm
      obtain ⟨rfl, rfl⟩ := Prod.mk.inj (Option.some.inj hk)
      rw [hc] at he
      subst he
      have hstop := isWord_head?_gap_append (t := r') hb (hm c hcm)
      have hrun : (q ++ (suffix ++ (gap ++ c :: r'))).takeWhile CodePoint.isWord = q ++ suffix := by
        rw [← List.append_assoc]
        exact Text.takeWhile_append_of_stop
          (fun d hd => (List.mem_append.1 hd).elim (hw d) (hs d)) hstop
      have hback : (suffix ++ (gap ++ c :: r')).takeWhile CodePoint.isWord = suffix :=
        Text.takeWhile_append_of_stop hs hstop
      simp only [hrun, hback, List.length_append, Nat.add_sub_cancel, List.take_left',
        Option.pure_def, Option.some.injEq, Prod.mk.injEq] at h
      obtain ⟨rfl, rfl⟩ := h
      exact ⟨⟨q, hq, rfl⟩, fun d hd => (List.mem_append.1 hd).elim (hw d) (hs d), gap, c,
        by simp, hb, hcm⟩
    · cases hk

theorem named?_append {gap : Text} {m : CodePoint} (hx : Suffixed suffix x)
    (hs : ∀ c ∈ suffix, c.isWord) (hw : ∀ c ∈ x, c.isWord) (hb : gap.isBlank)
    (hm : ∀ m ∈ marks, IsMark m) (hmm : m ∈ marks) :
    named? suffix marks (x ++ (gap ++ m :: r)) = some (x, r) := by
  obtain ⟨q, hq, rfl⟩ := hx
  have htrim : (gap ++ m :: r).trimLeft = m :: r :=
    (Text.trimLeft_append hb _).trans (Text.trimLeft_cons (hm m hmm).isBlank r)
  have hsome : (named? suffix marks (q ++ suffix ++ (gap ++ m :: r))).isSome := by
    have ha : ∀ o : Option (Text × Text), o.any (fun _ => true) = o.isSome := fun o => by
      cases o <;> rfl
    simp only [named?, Option.bind_eq_bind, Option.pure_def, Option.isSome_bind,
      Option.isSome_some, List.append_assoc, ha]
    refine Text.isSome_afterSomeRun hq (fun c hc => hw c (List.mem_append_left _ hc)) ?_
    simp [htrim, hmm]
  -- whatever is read is the run of word characters before the first mark
  obtain ⟨⟨y, r'⟩, hy⟩ := Option.isSome_iff_exists.1 hsome
  obtain ⟨-, hyw, gap', m', he, hb', hm'⟩ := named?_eq_some hs hm hy
  have hrun := congrArg (List.takeWhile CodePoint.isWord) he
  rw [Text.takeWhile_append_of_stop hw (isWord_head?_gap_append hb (hm m hmm)),
    Text.takeWhile_append_of_stop hyw (isWord_head?_gap_append hb' (hm m' hm'))] at hrun
  subst hrun
  have hrest := congrArg Text.trimLeft (List.append_cancel_left he)
  rw [htrim, Text.trimLeft_append hb', Text.trimLeft_cons (hm m' hm').isBlank] at hrest
  rw [hy, (List.cons.inj hrest).2]

end Named

section Phrase

variable {k : Text} {ws : List Text}

theorem exists_of_someBlanks? (h : someBlanks? t = some s) :
    ∃ gap, t = gap ++ s ∧ gap ≠ [] ∧ gap.isBlank := by
  cases t with
  | nil => cases h
  | cons c t =>
    rw [someBlanks?] at h
    split at h
    · rename_i hc
      obtain ⟨gap, hb, he⟩ := Text.exists_append_trimLeft t
      obtain rfl := Option.some.inj h
      exact ⟨c :: gap, congrArg (c :: ·) he, by simp, by simp [hc, hb]⟩
    · cases h

theorem someBlanks?_append {gap : Text} (hg : gap ≠ []) (hb : gap.isBlank)
    (ht : ∀ c ∈ t.head?, c.isBlank = false) : someBlanks? (gap ++ t) = some t := by
  obtain ⟨c, gap, rfl⟩ := List.exists_cons_of_ne_nil hg
  rw [Text.isBlank_cons, Bool.and_eq_true] at hb
  rw [List.cons_append, someBlanks?, if_pos hb.1, Text.trimLeft,
    Text.dropWhile_append_of_stop (Text.forall_of_isBlank hb.2) ht]

theorem exists_of_phrase? (h : phrase? (ws ++ [k]) t = some s) :
    ∃ a gap, t = a ++ (k ++ (gap ++ s)) ∧ gap ≠ [] ∧ gap.isBlank ∧
      ∀ c ∈ a, c.isBlank ∨ ∃ w ∈ ws, c ∈ w := by
  induction ws generalizing t with
  | nil =>
    obtain ⟨t', ha, hs⟩ := Option.bind_eq_some_iff.1 h
    obtain ⟨s', hg, hs⟩ := Option.bind_eq_some_iff.1 hs
    obtain rfl := Option.some.inj hs
    obtain ⟨gap, rfl, hne, hb⟩ := exists_of_someBlanks? hg
    exact ⟨[], gap, Text.eq_append_of_after (w := k) ha, hne, hb, by simp⟩
  | cons w ws ih =>
    obtain ⟨t', ha, hs⟩ := Option.bind_eq_some_iff.1 h
    obtain ⟨s', hg, hs⟩ := Option.bind_eq_some_iff.1 hs
    obtain ⟨a, gap, rfl, hne, hb, hc⟩ := ih hs
    obtain ⟨gap', rfl, -, hb'⟩ := exists_of_someBlanks? hg
    obtain rfl := Text.eq_append_of_after ha
    refine ⟨w ++ (gap' ++ a), gap, by simp, hne, hb, fun c hm => ?_⟩
    rcases List.mem_append.1 hm with hm | hm
    · exact .inr ⟨w, by simp, hm⟩
    · rcases List.mem_append.1 hm with hm | hm
      · exact .inl (Text.forall_of_isBlank hb' c hm)
      · exact (hc c hm).imp_right fun ⟨v, hv, hm⟩ => ⟨v, by simp [hv], hm⟩

theorem phrase?_append {w gap : Text} (hg : gap ≠ []) (hb : gap.isBlank)
    (ht : ∀ c ∈ t.head?, c.isBlank = false) :
    phrase? (w :: ws) (w ++ (gap ++ t)) = phrase? ws t := by
  rw [phrase?, Text.after_append]
  change (someBlanks? (gap ++ t)).bind (phrase? ws) = _
  rw [someBlanks?_append hg hb ht]
  rfl

end Phrase

def declarationWords : List Text := ["const", "function", "def"]

/-- A text that begins with white space and a name before a mark; `r` is left behind the mark. -/
inductive Names (isMark : CodePoint → Prop) (x r : Text) : Text → Prop
  | intro {gap gap' : Text} {m : CodePoint} (hg : gap ≠ []) (hb : gap.isBlank) (hne : x ≠ [])
      (hx : ∀ c ∈ x, c.isWord) (hb' : gap'.isBlank) (hm : isMark m) :
      Names isMark x r (gap ++ (x ++ (gap' ++ m :: r)))

/-- A text that begins with words, the last a declaration word, before a name and a first mark. -/
inductive Declares (x r : Text) : Text → Prop
  | intro {a k v : Text} (ha : ∀ c ∈ a, ¬ IsMark c) (hk : k ∈ declarationWords)
      (hn : Names IsMark x r v) : Declares x r (a ++ (k ++ v))

namespace Declares

theorem append {a : Text} (ha : ∀ c ∈ a, ¬ IsMark c) (h : Declares x r t) :
    Declares x r (a ++ t) := by
  obtain ⟨ha', hk, hn⟩ := h
  rw [← List.append_assoc]
  exact .intro (fun c hc => (List.mem_append.1 hc).elim (ha c) (ha' c)) hk hn

def lastWord (t : Text) : Text :=
  ((t.reverse.dropWhile CodePoint.isBlank).takeWhile CodePoint.isWord).reverse

theorem lastWord_append {gap gap' : Text} (hg : gap ≠ []) (hb : gap.isBlank) (hne : x ≠ [])
    (hx : ∀ c ∈ x, c.isWord) (hb' : gap'.isBlank) : lastWord (t ++ (gap ++ (x ++ gap'))) = x := by
  have he : (t ++ (gap ++ (x ++ gap'))).reverse =
      gap'.reverse ++ (x.reverse ++ (gap.reverse ++ t.reverse)) := by simp
  have hxb : ∀ c ∈ (x.reverse ++ (gap.reverse ++ t.reverse)).head?, c.isBlank = false := by
    obtain ⟨y, c, rfl⟩ := (List.eq_nil_or_concat x).resolve_left hne
    simpa using CodePoint.isBlank_of_isWord (hx c (by simp))
  have hgw : ∀ c ∈ (gap.reverse ++ t.reverse).head?, c.isWord = false := by
    obtain ⟨y, c, rfl⟩ := (List.eq_nil_or_concat gap).resolve_left hg
    simpa using CodePoint.isWord_of_isBlank (Text.forall_of_isBlank hb c (by simp))
  rw [lastWord, he, Text.dropWhile_append_of_stop
    (fun c hc => Text.forall_of_isBlank hb' c (by simpa using hc)) hxb,
    Text.takeWhile_append_of_stop (fun c hc => hx c (by simpa using hc)) hgw, List.reverse_reverse]

theorem exists_mark (h : Declares x r s) :
    ∃ w m, s = w ++ m :: r ∧ IsMark m ∧ (∀ c ∈ w, ¬ IsMark c) ∧ x ≠ [] ∧
      ∀ u, lastWord (u ++ w) = x := by
  obtain @⟨a, k, _, ha, hk, hn⟩ := h
  obtain @⟨gap, gap', m, hg, hb, hne, hx, hb', hm⟩ := hn
  have hkm : ∀ k ∈ declarationWords, ∀ c ∈ k, ¬ IsMark c := by decide
  refine ⟨a ++ (k ++ (gap ++ (x ++ gap'))), m, by simp, hm, ?_, hne, fun u => ?_⟩
  · simp only [List.mem_append]
    rintro c (hc | hc | hc | hc | hc)
    · exact ha c hc
    · exact hkm k hk c hc
    · exact not_isMark_of_isBlank (Text.forall_of_isBlank hb c hc)
    · exact not_isMark_of_isWord (hx c hc)
    · exact not_isMark_of_isBlank (Text.forall_of_isBlank hb' c hc)
  · have he : u ++ (a ++ (k ++ (gap ++ (x ++ gap')))) =
        (u ++ (a ++ k)) ++ (gap ++ (x ++ gap')) := by
      simp
    rw [he, lastWord_append hg hb hne hx hb']

/-- Declarations of which one ends within the other declare the same name. -/
theorem eq_of_append {u x' r' : Text} (h : Declares x r s) (h' : Declares x' r' (u ++ s))
    (hl : r'.length < s.length) : x' = x := by
  obtain ⟨w, m, rfl, hm, hw, hne, hx⟩ := h.exists_mark
  obtain ⟨w', m', he, hm', hw', hne', hx'⟩ := h'.exists_mark
  rcases List.append_eq_append_iff.1 he with ⟨y, rfl, hy⟩ | ⟨y, rfl, hy⟩
  · obtain ⟨rfl, -, -⟩ := Text.append_cons_inj_of_first hw
      (fun c hc => hw' c (List.mem_append_right _ hc)) hm hm' hy
    exact (hx' []).symm.trans (hx u)
  · have hy0 : y = [] := by
      have := congrArg List.length hy
      simp only [List.length_append, List.length_cons] at this hl
      exact List.length_eq_zero_iff.1 (by omega)
    subst hy0
    cases w with
    | nil => exact absurd (hx []).symm hne
    | cons c w =>
      obtain rfl := (List.cons.inj hy).1
      exact absurd hm' (hw _ (by simp))

end Declares

theorem declares_of_declared? {k : Text} (ws : List Text) (hs : ∀ c ∈ suffix, c.isWord)
    (hm : ∀ m ∈ marks, IsMark m) (hk : k ∈ declarationWords) (hw : ∀ w ∈ ws, ∀ c ∈ w, ¬ IsMark c)
    (h : declared? suffix marks (ws ++ [k]) t = some (x, r)) :
    Declares x r t ∧ Suffixed suffix x := by
  obtain ⟨t', hp, hn⟩ := Option.bind_eq_some_iff.1 h
  obtain ⟨hsx, hx, gap', m, rfl, hb', hmm⟩ := named?_eq_some hs hm hn
  obtain ⟨a, gap, rfl, hg, hb, ha⟩ := exists_of_phrase? hp
  have hne : x ≠ [] := by
    obtain ⟨q, hq, rfl⟩ := hsx
    simp [hq]
  refine ⟨.intro (fun c hc => ?_) hk (.intro hg hb hne hx hb' (hm m hmm)), hsx⟩
  rcases ha c hc with hc | ⟨w, hws, hc⟩
  · exact not_isMark_of_isBlank hc
  · exact hw w hws c hc

theorem declares_of_declaredAnyhow? (hs : ∀ c ∈ suffix, c.isWord)
    (h : declaredAnyhow? suffix t = some (x, r)) : Declares x r t ∧ Suffixed suffix x := by
  let forms : List (List Text) :=
    [["const"], ["async", "const"], ["function"], ["async", "function"]]
  have hplain : ∀ {t}, (forms.findSome? fun ws => declared? suffix ['=', '('] ws t) = some (x, r) →
      Declares x r t ∧ Suffixed suffix x := by
    intro t h
    obtain ⟨ws, hws, h⟩ := List.exists_of_findSome?_eq_some h
    have hm : ∀ m ∈ [(.char '=' : CodePoint), .char '('], IsMark m := by simp [IsMark]
    simp only [forms, List.mem_cons, List.not_mem_nil, or_false] at hws
    rcases hws with rfl | rfl | rfl | rfl
    · exact declares_of_declared? [] hs hm (by decide) (by simp) h
    · exact declares_of_declared? ["async"] hs hm (by decide) (by decide) h
    · exact declares_of_declared? [] hs hm (by decide) (by simp) h
    · exact declares_of_declared? ["async"] hs hm (by decide) (by decide) h
  rw [declaredAnyhow?, Option.orElse_eq_orElse, Option.orElse_eq_or, Option.or_eq_some_iff] at h
  rcases h with h | ⟨-, h⟩
  · obtain ⟨t', hp, h⟩ := Option.bind_eq_some_iff.1 h
    obtain ⟨hd, hx⟩ := hplain h
    have hp : phrase? ([] ++ [("export" : Text)]) t = some t' := hp
    obtain ⟨a, gap, rfl, -, hb, ha⟩ := exists_of_phrase? hp
    refine ⟨?_, hx⟩
    rw [← List.append_assoc, ← List.append_assoc]
    refine hd.append fun c hc => ?_
    have hk : ∀ c ∈ ("export" : Text), ¬ IsMark c := by decide
    simp only [List.mem_append, or_assoc] at hc
    rcases hc with hc | hc | hc
    · exact not_isMark_of_isBlank ((ha c hc).resolve_right (by simp))
    · exact hk c hc
    · exact not_isMark_of_isBlank (Text.forall_of_isBlank hb c hc)
  · exact hplain h

theorem declares_of_defined? {before : Option CodePoint} (hs : ∀ c ∈ suffix, c.isWord)
    (h : defined? suffix before t = some (x, r)) : Declares x r t ∧ Suffixed suffix x := by
  obtain ⟨-, -, h⟩ := Option.bind_eq_some_iff.1 h
  obtain ⟨gap, hb, ht⟩ := Text.exists_append_trimLeft t
  have hm : ∀ m ∈ [(.char '(' : CodePoint)], IsMark m := by simp [IsMark]
  have hd : Declares x r t.trimLeft ∧ Suffixed suffix x := by
    rw [Option.orElse_eq_orElse, Option.orElse_eq_or, Option.or_eq_some_iff] at h
    rcases h with h | ⟨-, h⟩
    · exact declares_of_declared? ["async"] hs hm (by decide) (by decide) h
    · exact declares_of_declared? [] hs hm (by decide) (by simp) h
  rw [ht]
  exact ⟨hd.1.append fun c hc => not_isMark_of_isBlank (Text.forall_of_isBlank hb c hc), hd.2⟩

/-- What the declaration forms read is declared. -/
theorem declares_of_mem_forms {p : Text.Pattern Text} {before : Option CodePoint}
    (hs : ∀ c ∈ suffix, c.isWord) (hp : p ∈ forms suffix) (h : p before t = some (x, r)) :
    Declares x r t ∧ Suffixed suffix x := by
  have he : ∀ m ∈ [(.char '=' : CodePoint)], IsMark m := by simp [IsMark]
  have ho : ∀ m ∈ [(.char '(' : CodePoint)], IsMark m := by simp [IsMark]
  simp only [forms, List.mem_cons, List.not_mem_nil, or_false] at hp
  rcases hp with rfl | rfl | rfl | rfl | rfl | rfl
  · exact declares_of_declared? ["export"] hs he (by decide) (by decide) h
  · exact declares_of_declared? ["export", "async"] hs he (by decide) (by decide) h
  · exact declares_of_declared? ["export", "async"] hs ho (by decide) (by decide) h
  · exact declares_of_declared? ["export"] hs ho (by decide) (by decide) h
  · exact declares_of_declaredAnyhow? hs h
  · exact declares_of_defined? hs h

section Reading

variable {gap gap' v : Text} {m : CodePoint}

theorem isBlank_head?_append (hne : x ≠ []) (hw : ∀ c ∈ x, c.isWord) (t : Text) :
    ∀ c ∈ (x ++ t).head?, c.isBlank = false := by
  obtain ⟨d, x, rfl⟩ := List.exists_cons_of_ne_nil hne
  simpa using CodePoint.isBlank_of_isWord (hw d (by simp))

theorem declared?_append {w : Text} (hs : ∀ c ∈ suffix, c.isWord) (hm : ∀ m ∈ marks, IsMark m)
    (hx : Suffixed suffix x) (hv : Names (· ∈ marks) x r v) :
    declared? suffix marks [w] (w ++ v) = some (x, r) := by
  obtain ⟨hg, hb, hne, hw, hb', hmm⟩ := hv
  rw [declared?, phrase?_append hg hb (isBlank_head?_append hne hw _)]
  exact named?_append hx hs hw hb' hm hmm

theorem phrase?_eq_none {w : Text} {ws : List Text} (h : Text.after w t = none) :
    phrase? (w :: ws) t = none := by
  rw [phrase?, h]
  rfl

theorem declaredAnyhow?_append {w : Text} (hw : w = "const" ∨ w = "function")
    (hs : ∀ c ∈ suffix, c.isWord) (hx : Suffixed suffix x)
    (hv : Names (· ∈ [(.char '=' : CodePoint), .char '(']) x r v) :
    declaredAnyhow? suffix (w ++ v) = some (x, r) := by
  have hm : ∀ m ∈ [(.char '=' : CodePoint), .char '('], IsMark m := by decide
  have hd := declared?_append (w := w) hs hm hx hv
  have he : phrase? ["export"] (w ++ v) = none :=
    phrase?_eq_none (by rcases hw with rfl | rfl <;> rfl)
  rw [declaredAnyhow?, he]
  rcases hw with rfl | rfl
  · simp [List.findSome?_cons, hd]
  · have hc : declared? suffix ['=', '('] ["const"] ("function" ++ v) = none := by
      rw [declared?, phrase?_eq_none rfl]
      rfl
    have ha : declared? suffix ['=', '('] ["async", "const"] ("function" ++ v) = none := by
      rw [declared?, phrase?_eq_none rfl]
      rfl
    simp [List.findSome?_cons, hd, hc, ha]

theorem defined?_append {before : Option CodePoint} {indent : Text}
    (hu : before.all fun c : CodePoint => c == '\n') (hi : indent.isBlank)
    (hs : ∀ c ∈ suffix, c.isWord) (hx : Suffixed suffix x)
    (hv : Names (· ∈ [(.char '(' : CodePoint)]) x r v) :
    defined? suffix before (indent ++ ("def" ++ v)) = some (x, r) := by
  have hm : ∀ m ∈ [(.char '(' : CodePoint)], IsMark m := by decide
  have ht : (indent ++ ("def" ++ v)).trimLeft = "def" ++ v :=
    (Text.trimLeft_append hi _).trans (Text.trimLeft_cons (by decide) _)
  have ha : declared? suffix ['('] ["async", "def"] ("def" ++ v) = none := by
    rw [declared?, phrase?_eq_none rfl]
    rfl
  simp [defined?, hu, guard, ht, ha, declared?_append (w := "def") hs hm hx hv]

theorem defined?_async_append {before : Option CodePoint} {indent gap : Text}
    (hu : before.all fun c : CodePoint => c == '\n') (hi : indent.isBlank) (hg : gap ≠ [])
    (hb : gap.isBlank) (hs : ∀ c ∈ suffix, c.isWord) (hx : Suffixed suffix x)
    (hv : Names (· ∈ [(.char '(' : CodePoint)]) x r v) :
    defined? suffix before (indent ++ ("async" ++ (gap ++ ("def" ++ v)))) = some (x, r) := by
  have hm : ∀ m ∈ [(.char '(' : CodePoint)], IsMark m := by decide
  have ht : (indent ++ ("async" ++ (gap ++ ("def" ++ v)))).trimLeft =
      "async" ++ (gap ++ ("def" ++ v)) :=
    (Text.trimLeft_append hi _).trans (Text.trimLeft_cons (by decide) _)
  have ha : declared? suffix ['('] ["async", "def"] ("async" ++ (gap ++ ("def" ++ v))) =
      some (x, r) := by
    rw [← declared?_append (w := "def") hs hm hx hv, declared?, declared?,
      phrase?_append hg hb (isBlank_head?_append (by decide) (by decide) v)]
  simp [defined?, hu, guard, ht, ha]

end Reading

/-- A form finds the names that it reads anywhere. -/
theorem mem_occurrences_iff {p : Text.Pattern Text}
    (hp : ∀ before t x r, p before t = some (x, r) → Declares x r t) :
    x ∈ (Text.occurrences p t).map (·.1) ↔
      ∃ u s r, t = u ++ s ∧ p u.getLast? s = some (x, r) := by
  constructor
  · intro h
    obtain ⟨⟨y, r⟩, ho, rfl⟩ := List.mem_map.1 h
    obtain ⟨u, s, rfl, hs⟩ := Text.exists_of_mem_occurrencesFrom ho
    exact ⟨u, s, r, rfl, by simpa using hs⟩
  · rintro ⟨u, s, r, rfl, h⟩
    have hd := hp _ _ _ _ h
    have hne : s ≠ [] := by
      obtain ⟨w, m, rfl, -⟩ := hd.exists_mark
      simp
    obtain ⟨r', hr⟩ := Text.exists_mem_occurrencesFrom hne (b := none) (by simpa using h)
      fun v c w x' r' hu hx hl => by
        have he : c :: (w ++ s) = (c :: w) ++ s := rfl
        exact hd.eq_of_append (he ▸ hp _ _ _ _ hx) hl
    exact List.mem_map.2 ⟨(x, r'), hr, rfl⟩

end Owner

end RouteAtlas
