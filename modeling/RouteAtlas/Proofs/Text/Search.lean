import Mathlib.Data.List.Basic
import Mathlib.Tactic.Common
import RouteAtlas.Text.Search

/-!
# Trimming, cutting and searching

What a pattern finds in a text is put together from what it finds in the parts: it skips where it
misses and goes on behind what it reads.
-/

namespace RouteAtlas.Text

@[simp] theorem isBlank_cons (c : CodePoint) (t : Text) :
    isBlank (c :: t) = (c.isBlank && isBlank t) := rfl

@[simp] theorem isBlank_append (s t : Text) : isBlank (s ++ t) = (isBlank s && isBlank t) := by
  simp [isBlank]

theorem forall_of_isBlank {t : Text} (h : isBlank t) : ∀ c ∈ t, CodePoint.isBlank c := by
  simpa [isBlank] using h

theorem takeWhile_append_of_stop {p : CodePoint → Bool} {s t : Text} (hs : ∀ c ∈ s, p c)
    (ht : ∀ c ∈ t.head?, p c = false) : (s ++ t).takeWhile p = s := by
  rw [List.takeWhile_append_of_pos hs]
  cases t with
  | nil => simp
  | cons c t => simp [ht c (by simp)]

theorem dropWhile_append_of_stop {p : CodePoint → Bool} {s t : Text} (hs : ∀ c ∈ s, p c)
    (ht : ∀ c ∈ t.head?, p c = false) : (s ++ t).dropWhile p = t := by
  rw [List.dropWhile_append_of_pos hs]
  cases t with
  | nil => rfl
  | cons c t => simp [ht c (by simp)]

theorem upTo_append {sep : CodePoint} {s t : Text} (hs : sep ∉ s)
    (ht : ∀ c ∈ t.head?, c = sep) : upTo sep (s ++ t) = s := by
  have hn : ∀ c ∈ s, (c != sep) = true := fun c hc => bne_iff_ne.2 fun he => hs (he ▸ hc)
  exact takeWhile_append_of_stop hn fun c hc => by simpa using ht c hc

theorem afterLast_append {sep : CodePoint} {s t : Text} (ht : sep ∉ t)
    (hs : ∀ c ∈ s.getLast?, c = sep) : afterLast sep (s ++ t) = t := by
  have hr : upTo sep (t.reverse ++ s.reverse) = t.reverse :=
    upTo_append (by simpa using ht) (by simpa using hs)
  rw [afterLast, ← upTo, List.reverse_append, hr, List.reverse_reverse]

theorem trimLeft_append {s : Text} (hs : isBlank s) (t : Text) : trimLeft (s ++ t) = trimLeft t :=
  List.dropWhile_append_of_pos (forall_of_isBlank hs)

theorem exists_append_trimLeft (t : Text) : ∃ gap, isBlank gap ∧ t = gap ++ trimLeft t :=
  ⟨t.takeWhile CodePoint.isBlank, List.all_takeWhile, List.takeWhile_append_dropWhile.symm⟩

theorem trimLeft_cons {c : CodePoint} (hc : c.isBlank = false) (t : Text) :
    trimLeft (c :: t) = c :: t := by
  simp [trimLeft, hc]

theorem trimRight_append {t : Text} (ht : isBlank t) (s : Text) :
    trimRight (s ++ t) = trimRight s := by
  have h : ∀ c ∈ t.reverse, CodePoint.isBlank c := by
    simpa using forall_of_isBlank ht
  simp [trimRight, List.dropWhile_append_of_pos h]

theorem trimRight_append_cons {c : CodePoint} (hc : c.isBlank = false) (s t : Text) :
    trimRight (s ++ c :: t) = s ++ c :: trimRight t := by
  unfold trimRight
  have h : (s ++ c :: t).reverse = t.reverse ++ (c :: s.reverse) := by simp
  rw [h, List.dropWhile_append]
  split
  · rename_i he
    simp only [List.isEmpty_iff] at he
    simp [hc, he]
  · simp

theorem trimRight_prefix (t : Text) : trimRight t <+: t := by
  have h := List.reverse_prefix.2 (List.dropWhile_suffix CodePoint.isBlank (l := t.reverse))
  rwa [List.reverse_reverse] at h

theorem exists_trimRight_append (t : Text) : ∃ gap, isBlank gap ∧ t = trimRight t ++ gap := by
  obtain ⟨gap, hg, he⟩ := exists_append_trimLeft t.reverse
  refine ⟨gap.reverse, by simpa [isBlank] using hg, ?_⟩
  have hr := congrArg List.reverse he
  rwa [List.reverse_reverse, List.reverse_append] at hr

theorem isBlank_getLast?_trimRight (t : Text) :
    ∀ c ∈ (trimRight t).getLast?, c.isBlank = false := by
  intro c hc
  rw [trimRight, List.getLast?_reverse] at hc
  have h := List.head?_dropWhile_not CodePoint.isBlank t.reverse
  rw [Option.mem_def.1 hc] at h
  exact h

theorem trimRight_eq_self_iff {t : Text} :
    trimRight t = t ↔ ∀ c ∈ t.getLast?, c.isBlank = false := by
  constructor
  · intro h
    exact h ▸ isBlank_getLast?_trimRight t
  · intro h
    rcases List.eq_nil_or_concat t with rfl | ⟨s, c, rfl⟩
    · rfl
    · rw [List.concat_eq_append] at h ⊢
      exact trimRight_append_cons (h c (by simp)) s []

theorem isBlank_head?_trimLeft (t : Text) : ∀ c ∈ (trimLeft t).head?, c.isBlank = false := by
  intro c hc
  have h := List.head?_dropWhile_not CodePoint.isBlank t
  rw [← trimLeft, Option.mem_def.1 hc] at h
  exact h

theorem isBlank_head?_trim (t : Text) : ∀ c ∈ (trim t).head?, c.isBlank = false := by
  intro c hc
  obtain ⟨r, hr⟩ := List.head?_eq_some_iff.1 hc
  obtain ⟨s, hs⟩ := trimRight_prefix (trimLeft t)
  refine isBlank_head?_trimLeft t c ?_
  rw [← hs, ← trim, hr]
  rfl

theorem isBlank_getLast?_trim (t : Text) : ∀ c ∈ (trim t).getLast?, c.isBlank = false :=
  isBlank_getLast?_trimRight (trimLeft t)

theorem trimLeft_of_isBlank {s : Text} (hs : isBlank s) : trimLeft s = [] := by
  simpa [trimLeft] using trimLeft_append hs []

theorem trim_padded {lead trail : Text} (hl : isBlank lead) (ht : isBlank trail) (t : Text) :
    trim (lead ++ (t ++ trail)) = trim t := by
  rw [trim, trim, trimLeft_append hl]
  by_cases hb : trimLeft t = []
  · have hs : trimLeft (t ++ trail) = trimLeft trail := by
      unfold trimLeft at hb ⊢
      rw [List.dropWhile_append, hb]
      rfl
    rw [hs, hb, trimLeft_of_isBlank ht]
  · have hs : trimLeft (t ++ trail) = trimLeft t ++ trail := by
      unfold trimLeft at hb ⊢
      rw [List.dropWhile_append, if_neg (by simpa using hb)]
    rw [hs, trimRight_append ht]

theorem trim_append_cons {s : Text} {c : CodePoint} (hs : ∀ d ∈ s.head?, d.isBlank = false)
    (hc : c.isBlank = false) (t : Text) : trim (s ++ c :: t) = s ++ c :: trimRight t := by
  have hl : trimLeft (s ++ c :: t) = s ++ c :: t := by
    cases s with
    | nil => exact trimLeft_cons hc t
    | cons d s => exact trimLeft_cons (hs d (by simp)) _
  rw [trim, hl, trimRight_append_cons hc]

theorem trim_of_ends {t : Text} (hl : ∀ c ∈ t.head?, c.isBlank = false)
    (hr : ∀ c ∈ t.getLast?, c.isBlank = false) : trim t = t := by
  rcases List.eq_nil_or_concat t with rfl | ⟨s, c, rfl⟩
  · rfl
  · rw [List.concat_eq_append] at hl hr ⊢
    refine trim_append_cons (fun d hd => hl d ?_) (hr c (by simp)) []
    rw [List.head?_append, Option.mem_def.1 hd]
    rfl

theorem trim_of_isBlank {t : Text} (h : isBlank t) : trim t = [] := by
  rw [trim, trimLeft_of_isBlank h]
  rfl

theorem trim_eq_nil_iff {t : Text} : trim t = [] ↔ isBlank t := by
  refine ⟨fun h => ?_, trim_of_isBlank⟩
  rcases hl : trimLeft t with _ | ⟨c, r⟩
  · obtain ⟨gap, hg, he⟩ := exists_append_trimLeft t
    rw [hl, List.append_nil] at he
    exact he ▸ hg
  · have hc : c.isBlank = false := isBlank_head?_trimLeft t c (by simp [hl])
    have ht := trimRight_append_cons hc [] r
    rw [trim, hl] at h
    exact absurd (h.symm.trans ht) (by simp)

theorem trim_of_forall {t : Text} (h : ∀ c ∈ t, c.isBlank = false) : trim t = t := by
  have hl : ∀ s : Text, (∀ c ∈ s, c.isBlank = false) → s.dropWhile CodePoint.isBlank = s := by
    intro s hs
    cases s with
    | nil => rfl
    | cons c s => simp [hs c (by simp)]
  rw [trim, trimLeft, hl t h, trimRight, hl _ (by simpa using h), List.reverse_reverse]

@[simp] theorem startsWith_append (s t : Text) : startsWith (s ++ t) s = true := by
  simp [startsWith, List.isPrefixOf_iff_prefix]

@[simp] theorem after_nil (t : Text) : after [] t = some t := after_append [] t

theorem join_cons_cons (sep s t : Text) (ts : List Text) :
    join sep (s :: t :: ts) = s ++ (sep ++ join sep (t :: ts)) := by
  simp [join, List.intercalate_cons_cons]

theorem mem_join {sep : Text} {ts : List Text} {c : CodePoint} (h : c ∈ join sep ts) :
    c ∈ sep ∨ ∃ t ∈ ts, c ∈ t := by
  induction ts with
  | nil => simp [join] at h
  | cons t ts ih =>
    cases ts with
    | nil => exact .inr ⟨t, by simp, by simpa [join] using h⟩
    | cons u us =>
      rw [join_cons_cons] at h
      rcases List.mem_append.1 h with h | h
      · exact .inr ⟨t, by simp, h⟩
      · rcases List.mem_append.1 h with h | h
        · exact .inl h
        · rcases ih h with h | ⟨v, hv, h⟩
          · exact .inl h
          · exact .inr ⟨v, by simp [hv], h⟩

/-- Where two texts with marks are one, one of the marks stands before the other. -/
theorem mem_or_mem_of_append_eq {s t u v : Text} {c d : CodePoint} (hcd : c ≠ d)
    (h : s ++ c :: t = u ++ d :: v) : c ∈ u ∨ d ∈ s := by
  rcases List.append_eq_append_iff.1 h with ⟨w, rfl, hw⟩ | ⟨w, rfl, hw⟩
  · cases w with
    | nil => exact absurd (List.cons.inj hw).1 hcd
    | cons e w =>
      obtain rfl := (List.cons.inj hw).1
      exact .inl (by simp)
  · cases w with
    | nil => exact absurd (List.cons.inj hw).1.symm hcd
    | cons e w =>
      obtain rfl := (List.cons.inj hw).1
      exact .inr (by simp)

/-- The first character with a property divides a text in one way. -/
theorem append_cons_inj_of_first {p : CodePoint → Prop} {s t u v : Text} {c d : CodePoint}
    (hs : ∀ e ∈ s, ¬ p e) (hu : ∀ e ∈ u, ¬ p e) (hc : p c) (hd : p d)
    (h : s ++ c :: t = u ++ d :: v) : s = u ∧ c = d ∧ t = v := by
  rcases List.append_eq_append_iff.1 h with ⟨w, rfl, hw⟩ | ⟨w, rfl, hw⟩
  · cases w with
    | nil => simpa using hw
    | cons e w =>
      obtain rfl := (List.cons.inj hw).1
      exact absurd hc (hu c (by simp))
  · cases w with
    | nil => simpa [eq_comm] using hw
    | cons e w =>
      obtain rfl := (List.cons.inj hw).1
      exact absurd hd (hs d (by simp))

theorem prefix_of_prefix_append_cons {w s t : Text} {c : CodePoint} (hc : c ∉ w)
    (h : w <+: s ++ c :: t) : w <+: s := by
  obtain ⟨v, h⟩ := h
  rcases List.append_eq_append_iff.1 h with ⟨x, rfl, -⟩ | ⟨x, rfl, hx⟩
  · exact List.prefix_append _ _
  · cases x with
    | nil => simp
    | cons d x =>
      obtain rfl := (List.cons.inj hx).1
      exact (hc (by simp)).elim

/-- A text without a mark stands on one side of the mark. -/
theorem infix_or_infix_of_append_cons {w s t : Text} {c : CodePoint} (hc : c ∉ w)
    (h : w <:+: s ++ c :: t) : w <:+: s ∨ w <:+: t := by
  induction s with
  | nil =>
    rcases List.infix_cons_iff.1 h with h | h
    · exact .inl (prefix_of_prefix_append_cons (s := []) hc h).isInfix
    · exact .inr h
  | cons d s ih =>
    rcases List.infix_cons_iff.1 h with h | h
    · exact .inl (prefix_of_prefix_append_cons (s := d :: s) hc h).isInfix
    · exact (ih h).imp (fun hs => List.infix_cons hs) id

/-- A text stands on one side of characters that it does not have. -/
theorem infix_or_infix_of_append {w s g t : Text} (hg : g ≠ []) (hw : ∀ c ∈ g, c ∉ w)
    (h : w <:+: s ++ (g ++ t)) : w <:+: s ∨ w <:+: t := by
  induction g generalizing s with
  | nil => exact absurd rfl hg
  | cons c g ih =>
    refine (infix_or_infix_of_append_cons (hw c (by simp)) h).imp_right fun h => ?_
    cases g with
    | nil => exact h
    | cons d g =>
      rcases ih (s := []) (by simp) (fun e he => hw e (by simp [he])) h with h | h
      · exact List.infix_nil.1 h ▸ List.nil_infix
      · exact h

def Stands (w v t : Text) : Prop := ∃ u, t = u ++ (w ++ v)

theorem Stands.isInfix {w v t : Text} (h : Stands w v t) : w <:+: t := by
  obtain ⟨u, rfl⟩ := h
  exact ⟨u, v, by simp⟩

theorem Stands.of_append_cons {w v s t : Text} {c : CodePoint} (hc : c ∉ w)
    (h : Stands w v (s ++ c :: t)) :
    (∃ v', Stands w v' s ∧ v = v' ++ c :: t) ∨ Stands w v t := by
  obtain ⟨u, h⟩ := h
  rcases List.append_eq_append_iff.1 h with ⟨x, rfl, hx⟩ | ⟨x, rfl, hx⟩
  · cases x with
    | nil =>
      cases w with
      | nil => exact .inl ⟨[], ⟨s, by simp⟩, by simpa using hx.symm⟩
      | cons d w => exact absurd (List.cons.inj hx).1 (by rintro rfl; simp at hc)
    | cons d x => exact .inr ⟨x, (List.cons.inj hx).2⟩
  · rcases List.append_eq_append_iff.1 hx with ⟨y, rfl, rfl⟩ | ⟨y, rfl, hy⟩
    · exact .inl ⟨y, ⟨u, rfl⟩, rfl⟩
    · cases y with
      | nil => exact .inl ⟨[], ⟨u, by simp⟩, by simpa using hy.symm⟩
      | cons d y => exact absurd (List.cons.inj hy).1 (by rintro rfl; simp at hc)

theorem Stands.of_append {w v s g t : Text} (hn : w ≠ []) (hg : g ≠ []) (hw : ∀ c ∈ g, c ∉ w)
    (h : Stands w v (s ++ (g ++ t))) :
    (∃ v', Stands w v' s ∧ v = v' ++ (g ++ t)) ∨ Stands w v t := by
  induction g generalizing s with
  | nil => exact absurd rfl hg
  | cons c g ih =>
    refine (Stands.of_append_cons (hw c (by simp)) h).imp_right fun h => ?_
    cases g with
    | nil => exact h
    | cons d g =>
      rcases ih (s := []) (by simp) (fun e he => hw e (by simp [he])) h with ⟨v', h, -⟩ | h
      · exact absurd (List.infix_nil.1 h.isInfix) hn
      · exact h

section Runs

variable {α : Type} {p : CodePoint → Bool} {k : Text → Option α} {s t : Text}

theorem afterRun_of_stop (ht : ∀ c ∈ t.head?, p c = false) : afterRun p k t = k t := by
  cases t with
  | nil => rfl
  | cons c t => simp [afterRun, ht c (by simp)]

theorem afterRun_append_of_eq_some {a : α} (hs : ∀ c ∈ s, p c)
    (ht : ∀ c ∈ t.head?, p c = false) (hk : k t = some a) : afterRun p k (s ++ t) = some a := by
  induction s with
  | nil => exact (afterRun_of_stop ht).trans hk
  | cons c s ih =>
    rw [List.cons_append, afterRun, if_pos (hs c (by simp)), ih fun d hd => hs d (by simp [hd])]
    rfl

theorem afterRun_append_of_eq_none (hs : ∀ c ∈ s, p c) (ht : ∀ c ∈ t.head?, p c = false)
    (hk : k t = none) (hr : ∀ c r, p c → k (c :: r) = none) : afterRun p k (s ++ t) = none := by
  induction s with
  | nil => exact (afterRun_of_stop ht).trans hk
  | cons c s ih =>
    have hc := hs c (by simp)
    rw [List.cons_append, afterRun, if_pos hc, ih fun d hd => hs d (by simp [hd]), hr c _ hc]
    rfl

theorem exists_of_afterRun {a : α} (h : afterRun p k t = some a) :
    ∃ s r, t = s ++ r ∧ (∀ c ∈ s, p c) ∧ k r = some a := by
  induction t with
  | nil => exact ⟨[], [], rfl, by simp, h⟩
  | cons c t ih =>
    rw [afterRun] at h
    split at h
    · rename_i hc
      rw [Option.orElse_eq_orElse, Option.orElse_eq_or, Option.or_eq_some_iff] at h
      rcases h with h | ⟨-, h⟩
      · obtain ⟨s, r, rfl, hs, hk⟩ := ih h
        exact ⟨c :: s, r, rfl, by simpa [hc] using hs, hk⟩
      · exact ⟨[], c :: t, rfl, by simp, h⟩
    · exact ⟨[], c :: t, rfl, by simp, h⟩

theorem isSome_afterRun (hs : ∀ c ∈ s, p c) (hk : (k t).isSome) :
    (afterRun p k (s ++ t)).isSome := by
  induction s with
  | nil =>
    cases t with
    | nil => exact hk
    | cons c t =>
      rw [List.nil_append, afterRun]
      split
      · simp [hk]
      · exact hk
  | cons c s ih =>
    rw [List.cons_append, afterRun, if_pos (hs c (by simp))]
    simp [ih fun d hd => hs d (by simp [hd])]

theorem exists_of_afterSomeRun {a : α} (h : afterSomeRun p k t = some a) :
    ∃ s r, t = s ++ r ∧ s ≠ [] ∧ (∀ c ∈ s, p c) ∧ k r = some a := by
  cases t with
  | nil => cases h
  | cons c t =>
    rw [afterSomeRun] at h
    split at h
    · rename_i hc
      obtain ⟨s, r, rfl, hs, hk⟩ := exists_of_afterRun h
      exact ⟨c :: s, r, rfl, by simp, by simpa [hc] using hs, hk⟩
    · cases h

theorem isSome_afterSomeRun (hne : s ≠ []) (hs : ∀ c ∈ s, p c) (hk : (k t).isSome) :
    (afterSomeRun p k (s ++ t)).isSome := by
  obtain ⟨c, s, rfl⟩ := List.exists_cons_of_ne_nil hne
  rw [List.cons_append, afterSomeRun, if_pos (hs c (by simp))]
  exact isSome_afterRun (fun d hd => hs d (by simp [hd])) hk

end Runs

theorem occursIn_iff {w t : Text} : occursIn w t ↔ w <:+: t := by
  induction t with
  | nil => simp [occursIn]
  | cons c t ih =>
    rw [occursIn, Bool.or_eq_true, ih, List.infix_cons_iff, List.isPrefixOf_iff_prefix]

theorem cut_eq_splitOn (sep : CodePoint) (t : Text) : cut sep t = t.splitOn sep := by
  induction t with
  | nil => rfl
  | cons c r ih =>
    simp only [cut, List.splitOn_cons_eq_if_modifyHead, ← ih, beq_iff_eq]
    split
    · rfl
    · cases h : cut sep r with
      | nil => exact absurd h (cut_ne_nil sep r)
      | cons p ps => rfl

@[simp] theorem cut_cons_self (sep : CodePoint) (r : Text) :
    cut sep (sep :: r) = [] :: cut sep r := by
  simp [cut]

theorem cut_cons_of_ne {sep c : CodePoint} {r p : Text} {ps : List Text} (hc : c ≠ sep)
    (h : cut sep r = p :: ps) : cut sep (c :: r) = (c :: p) :: ps := by
  simp [cut, hc, h]

theorem cut_append_cons (sep : CodePoint) (s t : Text) :
    cut sep (s ++ sep :: t) = cut sep s ++ cut sep t := by
  simp [cut_eq_splitOn, List.splitOn_append_cons_self]

theorem cut_of_not_mem {sep : CodePoint} {t : Text} (h : sep ∉ t) : cut sep t = [t] := by
  simp [cut_eq_splitOn, List.splitOn_eq_singleton h]

theorem cut_join {sep : CodePoint} {ts : List Text} (hne : ts ≠ []) (h : ∀ t ∈ ts, sep ∉ t) :
    cut sep (join [sep] ts) = ts := by
  rw [cut_eq_splitOn, join, List.splitOn_intercalate _ h hne]

theorem exists_cut_eq_upTo_cons (sep : CodePoint) (t : Text) :
    ∃ ps, cut sep t = upTo sep t :: ps := by
  induction t with
  | nil => exact ⟨[], rfl⟩
  | cons c r ih =>
    by_cases hc : c = sep
    · subst hc
      exact ⟨cut c r, by simp [upTo]⟩
    · obtain ⟨ps, hp⟩ := ih
      have hu : upTo sep (c :: r) = c :: upTo sep r := by simp [upTo, hc]
      exact ⟨ps, by rw [cut_cons_of_ne hc hp, hu]⟩

theorem eq_or_mem_of_mem {sep c : CodePoint} {t : Text} (h : c ∈ t) :
    c = sep ∨ ∃ p ∈ cut sep t, c ∈ p := by
  induction t with
  | nil => cases h
  | cons d r ih =>
    obtain ⟨p, ps, hp⟩ := List.exists_cons_of_ne_nil (cut_ne_nil sep r)
    by_cases hd : d = sep
    · subst hd
      rw [cut_cons_self]
      rcases List.mem_cons.1 h with rfl | h
      · exact .inl rfl
      · exact (ih h).imp id fun ⟨q, hq, hc⟩ => ⟨q, by simp [hq], hc⟩
    · rw [cut_cons_of_ne hd hp]
      rcases List.mem_cons.1 h with rfl | h
      · exact .inr ⟨c :: p, by simp, by simp⟩
      · refine (ih h).imp id fun ⟨q, hq, hc⟩ => ?_
        rw [hp] at hq
        rcases List.mem_cons.1 hq with rfl | hq
        · exact ⟨d :: q, by simp, by simp [hc]⟩
        · exact ⟨q, by simp [hq], hc⟩

theorem not_mem_of_mem_cut {sep : CodePoint} {t p : Text} (hp : p ∈ cut sep t) : sep ∉ p := by
  induction t generalizing p with
  | nil => simp_all [cut]
  | cons c r ih =>
    simp only [cut] at hp
    split at hp
    · rcases List.mem_cons.1 hp with rfl | hp
      · simp
      · exact ih hp
    · rename_i hc
      split at hp
      · rename_i h
        exact absurd h (cut_ne_nil sep r)
      · rename_i q qs h
        rcases List.mem_cons.1 hp with rfl | hp
        · have hq := ih (p := q) (by simp [h])
          simp [hq, Ne.symm hc]
        · exact ih (by simp [h, hp])

theorem mem_of_mem_of_mem_cut {sep c : CodePoint} {t p : Text} (hp : p ∈ cut sep t) (hc : c ∈ p) :
    c ∈ t := by
  induction t generalizing p with
  | nil => simp_all [cut]
  | cons d r ih =>
    obtain ⟨q, qs, h⟩ := List.exists_cons_of_ne_nil (cut_ne_nil sep r)
    by_cases hd : d = sep
    · subst hd
      rw [cut_cons_self] at hp
      rcases List.mem_cons.1 hp with rfl | hp
      · cases hc
      · exact List.mem_cons_of_mem _ (ih hp hc)
    · rw [cut_cons_of_ne hd h] at hp
      rcases List.mem_cons.1 hp with rfl | hp
      · exact (List.mem_cons.1 hc).elim (fun h => by simp [h])
          fun hc => List.mem_cons_of_mem _ (ih (by simp [h]) hc)
      · exact List.mem_cons_of_mem _ (ih (by simp [h, hp]) hc)

section Occurrences

variable {α : Type} {p : Pattern α} {b : Option CodePoint} {s t u : Text}

/-- Whether a pattern is found nowhere in `u`, with `t` behind it. -/
def Misses (p : Pattern α) : Option CodePoint → Text → Text → Prop
  | _, [], _ => True
  | b, c :: u, t => p b (c :: (u ++ t)) = none ∧ Misses p (some c) u t

theorem getLast?_cons_or (c : CodePoint) (u : Text) (b : Option CodePoint) :
    (c :: u).getLast?.or b = u.getLast?.or (some c) := by
  cases u <;> simp [List.getLast?_cons]

theorem misses_iff : Misses p b u t ↔
    ∀ v c w, u = v ++ c :: w → p (v.getLast?.or b) (c :: (w ++ t)) = none := by
  induction u generalizing b with
  | nil => simp [Misses]
  | cons d u ih =>
    rw [Misses, ih]
    constructor
    · rintro ⟨h₁, h₂⟩ v c w he
      cases v with
      | nil =>
        obtain ⟨rfl, rfl⟩ := List.cons.inj he
        simpa using h₁
      | cons e v =>
        obtain ⟨rfl, rfl⟩ := List.cons.inj he
        rw [getLast?_cons_or]
        exact h₂ v c w rfl
    · refine fun h => ⟨by simpa using h [] d u rfl, fun v c w he => ?_⟩
      have := h (d :: v) c w (by simp [he])
      rwa [getLast?_cons_or] at this

theorem misses_append {v : Text} :
    Misses p b (u ++ v) t ↔ Misses p b u (v ++ t) ∧ Misses p (u.getLast?.or b) v t := by
  induction u generalizing b with
  | nil => simp [Misses]
  | cons c u ih => rw [List.cons_append, Misses, ih, Misses, getLast?_cons_or, and_assoc,
      List.append_assoc]

def Refuses (p : Pattern α) (c : CodePoint) : Prop := ∀ before t, p before (c :: t) = none

theorem misses_of_refuses (h : ∀ c ∈ u, Refuses p c) : Misses p b u t := by
  induction u generalizing b with
  | nil => trivial
  | cons c u ih => exact ⟨h c (by simp) _ _, ih fun d hd => h d (by simp [hd])⟩

theorem occurrencesFrom_append_of_misses (h : Misses p b u t) :
    occurrencesFrom p b 0 (u ++ t) = occurrencesFrom p (u.getLast?.or b) 0 t := by
  induction u generalizing b with
  | nil => rfl
  | cons c u ih =>
    rw [List.cons_append, occurrencesFrom, h.1, getLast?_cons_or]
    exact ih h.2

theorem occurrencesFrom_skip :
    occurrencesFrom p b u.length (u ++ t) = occurrencesFrom p (u.getLast?.or b) 0 t := by
  induction u generalizing b with
  | nil => rfl
  | cons c u ih =>
    rw [getLast?_cons_or, ← ih]
    rfl

theorem occurrencesFrom_append_of_eq_some {a : α} (hu : u ≠ []) (h : p b (u ++ t) = some (a, t)) :
    occurrencesFrom p b 0 (u ++ t) = (a, t) :: occurrencesFrom p (u.getLast?.or b) 0 t := by
  cases u with
  | nil => exact absurd rfl hu
  | cons c u =>
    have hl : (u ++ t).length - t.length = u.length := by simp
    rw [List.cons_append] at h ⊢
    rw [occurrencesFrom, h, getLast?_cons_or, ← occurrencesFrom_skip]
    simp only [hl]

/-- What is found first is found behind a part where the pattern misses. -/
theorem exists_misses_of_occurrencesFrom {a : α} {r : Text} {more : List (α × Text)}
    (h : occurrencesFrom p b 0 t = (a, r) :: more) :
    ∃ u s, t = u ++ s ∧ Misses p b u s ∧ p (u.getLast?.or b) s = some (a, r) := by
  induction t generalizing b with
  | nil => simp [occurrencesFrom] at h
  | cons c t ih =>
    rw [occurrencesFrom] at h
    split at h
    · rename_i a' r' hp
      obtain ⟨rfl, rfl⟩ : a' = a ∧ r' = r := by simpa using (List.cons.inj h).1
      exact ⟨[], c :: t, rfl, trivial, hp⟩
    · rename_i hp
      obtain ⟨u, s, rfl, hm, hs⟩ := ih h
      exact ⟨c :: u, s, rfl, ⟨hp, hm⟩, by rwa [getLast?_cons_or]⟩

theorem misses_of_occurrencesFrom (h : occurrencesFrom p b 0 t = []) : Misses p b t [] := by
  induction t generalizing b with
  | nil => trivial
  | cons c t ih =>
    rw [occurrencesFrom] at h
    split at h
    · cases h
    · rename_i hp
      exact ⟨by simpa using hp, ih h⟩

theorem occurrences_eq_nil (h : Misses p none t []) : occurrences p t = [] := by
  simpa [occurrences, occurrencesFrom] using occurrencesFrom_append_of_misses h

theorem exists_of_mem_occurrencesFrom {a : α} {r : Text} {n : Nat}
    (h : (a, r) ∈ occurrencesFrom p b n t) :
    ∃ u s, t = u ++ s ∧ p (u.getLast?.or b) s = some (a, r) := by
  induction t generalizing b n with
  | nil => simp [occurrencesFrom] at h
  | cons c t ih =>
    have hlater : ∀ {m : Nat}, (a, r) ∈ occurrencesFrom p (some c) m t →
        ∃ u s, c :: t = u ++ s ∧ p (u.getLast?.or b) s = some (a, r) := by
      intro m hm
      obtain ⟨u, s, rfl, hs⟩ := ih hm
      exact ⟨c :: u, s, rfl, by rwa [getLast?_cons_or]⟩
    cases n with
    | succ n => exact hlater h
    | zero =>
      rw [occurrencesFrom] at h
      split at h
      · rename_i hp
        rcases List.mem_cons.1 h with h | h
        · obtain ⟨rfl, rfl⟩ := Prod.mk.inj h
          exact ⟨[], c :: t, rfl, hp⟩
        · exact hlater h
      · exact hlater h

/-- What a pattern reads at a place is found, if all that it reads across the beginning of that
place is the same. -/
theorem exists_mem_occurrencesFrom {a : α} {r : Text} (hs : s ≠ [])
    (h : p (u.getLast?.or b) s = some (a, r))
    (hx : ∀ v c w a' r', u = v ++ c :: w → p (v.getLast?.or b) (c :: (w ++ s)) = some (a', r') →
      r'.length < s.length → a' = a) :
    ∃ r', (a, r') ∈ occurrencesFrom p b 0 (u ++ s) := by
  induction hn : u.length using Nat.strongRecOn generalizing u b with
  | ind n ih =>
    subst hn
    cases u with
    | nil =>
      obtain ⟨c, s, rfl⟩ := List.exists_cons_of_ne_nil hs
      have h : p b (c :: s) = some (a, r) := h
      exact ⟨r, by simp [occurrencesFrom, h]⟩
    | cons c u =>
      have hskip : ∀ x y : Text, u = x ++ y →
          ∃ r', (a, r') ∈ occurrencesFrom p (x.getLast?.or (some c)) 0 (y ++ s) := by
        rintro x y rfl
        have hlt : y.length < (c :: (x ++ y)).length := by
          simp only [List.length_cons, List.length_append]
          omega
        refine ih y.length hlt ?_ (fun v d w a' r' hu hp hl => ?_) rfl
        · rwa [getLast?_cons_or, List.getLast?_append, Option.or_assoc] at h
        · refine hx (c :: (x ++ v)) d w a' r' (by simp [hu]) ?_ hl
          rwa [getLast?_cons_or, List.getLast?_append, Option.or_assoc]
      rw [List.cons_append, occurrencesFrom]
      split
      · rename_i a' r' hp
        by_cases hl : r'.length < s.length
        · obtain rfl := hx [] c u a' r' rfl hp hl
          exact ⟨r', by simp⟩
        · -- the match ends within `u`, so the search goes on in the rest of `u`
          obtain ⟨r'', hr⟩ := hskip (u.take ((u ++ s).length - r'.length))
            (u.drop ((u ++ s).length - r'.length)) (List.take_append_drop _ _).symm
          refine ⟨r'', List.mem_cons_of_mem _ ?_⟩
          rw [← occurrencesFrom_skip, ← List.append_assoc, List.take_append_drop, List.length_take,
            Nat.min_eq_left (by simp; omega)] at hr
          exact hr
      · obtain ⟨r', hr⟩ := hskip [] u rfl
        exact ⟨r', hr⟩

end Occurrences

end RouteAtlas.Text
