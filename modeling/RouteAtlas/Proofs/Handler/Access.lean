import Mathlib.Data.Option.Basic
import Mathlib.Tactic.Common
import RouteAtlas.Proofs.Handler.Statements

/-!
# Finding access chains in a handler body

An access begins only where the carrier stands with a point behind it. Destructuring holds no such
place, and in a lookup the chain is read to its end.
-/

namespace RouteAtlas.Source

def chainMarks : List Text := [".", "?."]

def Quiet (carrier u : Text) : Prop := ∀ mark ∈ chainMarks, ¬ carrier ++ mark <:+: u

/-- Whether a character can be no part of an access. -/
def divides (c : CodePoint) : Bool := !c.isName && c != '.' && c != '?'

theorem divides_of_isBlank {c : CodePoint} (h : c.isBlank) : divides c := by
  simp [divides, CodePoint.isName_of_isBlank h,
    CodePoint.ne_of_class h (d := .char '.') (by decide),
    CodePoint.ne_of_class h (d := .char '?') (by decide)]

section Quiet

variable {g : Grammar} {s t u : Text} {c : CodePoint}

theorem Quiet.of_free (h : ¬ g.carrier <:+: u) : Quiet g.carrier u :=
  fun _ _ hm => h ((List.prefix_append _ _).isInfix.trans hm)

theorem Quiet.of_not_mem (h : .char '.' ∉ u) : Quiet g.carrier u := by
  have hp : ∀ mark ∈ chainMarks, .char '.' ∈ mark := by decide
  intro mark hm hi
  exact h (hi.subset (List.mem_append_right _ (hp mark hm)))

theorem quiet_carrier : Quiet g.carrier g.carrier := by
  have hp : ∀ mark ∈ chainMarks, 0 < mark.length := by decide
  intro mark hm hi
  have hl := hi.length_le
  have hmark := hp mark hm
  rw [List.length_append] at hl
  omega

theorem not_mem_of_divides (hg : g.IsApart) (hc : divides c) {mark : Text}
    (hm : mark ∈ chainMarks) : c ∉ g.carrier ++ mark := by
  simp only [divides, Bool.and_eq_true, Bool.not_eq_true', bne_iff_ne] at hc
  intro h
  rcases List.mem_append.1 h with h | h
  · rcases (hg.forall_carrier c h).2 with rfl | hn
    · exact hc.1.2 rfl
    · simp [hc.1.1] at hn
  · have hp : ∀ mark ∈ chainMarks, ∀ d ∈ mark, d = .char '.' ∨ d = .char '?' := by decide
    rcases hp mark hm c h with rfl | rfl
    · exact hc.1.2 rfl
    · exact hc.2 rfl

theorem Quiet.append_cons (hg : g.IsApart) (hs : Quiet g.carrier s) (hc : divides c)
    (ht : Quiet g.carrier t) : Quiet g.carrier (s ++ c :: t) := by
  intro mark hm hi
  rcases Text.infix_or_infix_of_append_cons (not_mem_of_divides hg hc hm) hi with h | h
  · exact hs mark hm h
  · exact ht mark hm h

theorem Quiet.cons (hg : g.IsApart) (hc : c.isNameStart = false) (ht : Quiet g.carrier t) :
    Quiet g.carrier (c :: t) := by
  obtain ⟨d, r, hd, hn⟩ := hg.exists_cons_carrier
  intro mark hm hi
  rcases List.infix_cons_iff.1 hi with h | h
  · rw [hd, List.cons_append, List.cons_prefix_cons] at h
    exact CodePoint.ne_of_class hn hc h.1
  · exact ht mark hm h

theorem Quiet.gap_append (hg : g.IsApart) (gap : Gap) (ht : Quiet g.carrier t) :
    Quiet g.carrier (gap.1 ++ t) := by
  obtain ⟨gap, hgap⟩ := gap
  induction gap with
  | nil => exact ht
  | cons c gap ih =>
    rw [Text.isBlank_cons, Bool.and_eq_true] at hgap
    exact Quiet.cons hg (CodePoint.isNameStart_of_isBlank hgap.1) (ih hgap.2)

@[simp] theorem Gap.point_not_mem (gap : Gap) : .char '.' ∉ gap.1 := fun h =>
  absurd (Text.forall_of_isBlank gap.2 _ h) (by decide)

@[simp] theorem Identifier.point_not_mem (name : Identifier) : .char '.' ∉ name.1 := fun h =>
  absurd (name.forall_isName _ h) (by decide)

@[simp] theorem Keyword.point_not_mem (w : Keyword) : .char '.' ∉ w.1 := by
  have hk : ∀ w ∈ keywords, .char '.' ∉ w := by decide
  exact hk _ w.2

theorem Quiet.append_gap (hg : g.IsApart) (gap : Gap) (hs : Quiet g.carrier s) :
    Quiet g.carrier (s ++ gap.1) := by
  obtain ⟨gap, hgap⟩ := gap
  cases gap with
  | nil => simpa using hs
  | cons c gap =>
    rw [Text.isBlank_cons, Bool.and_eq_true] at hgap
    have hp := Gap.point_not_mem ⟨gap, hgap.2⟩
    exact hs.append_cons hg (divides_of_isBlank hgap.1) (.of_not_mem hp)

theorem quiet_join (hg : g.IsApart) {ts : List Text} (h : ∀ t ∈ ts, Quiet g.carrier t) :
    Quiet g.carrier (Text.join "," ts) := by
  induction ts with
  | nil => exact .of_not_mem (by simp [Text.join])
  | cons t ts ih =>
    have ht := h t (by simp)
    cases ts with
    | nil => simpa [Text.join] using ht
    | cons u us =>
      rw [Text.join_cons_cons]
      exact ht.append_cons hg (by decide) (ih fun v hv => h v (by simp [hv]))

theorem Binder.quiet (hg : g.IsApart) (e : Binder g) : Quiet g.carrier e.render := by
  cases e with
  | named name rename fallback =>
    have hs : .char '.' ∉ name.1 ++ renameText rename := by
      obtain _ | ⟨before, behind, target⟩ := rename
      · simp [renameText]
      · simp [renameText]
    obtain _ | ⟨before, value⟩ := fallback
    · rw [render, fallbackText, List.append_nil]
      exact .of_not_mem hs
    · have hb := Quiet.append_gap hg before (.of_not_mem hs)
      have h := hb.append_cons hg (c := .char '=') (by decide) (.of_free value.2.2.2)
      simpa [render, fallbackText] using h
  | rest name =>
    have hn : Quiet g.carrier name.1 := .of_not_mem name.point_not_mem
    have hp : CodePoint.isNameStart (.char '.') = false := by decide
    exact .cons hg hp (.cons hg hp (.cons hg hp hn))

theorem Binding.quiet_inside (hg : g.IsApart) (b : Binding g) : Quiet g.carrier b.inside := by
  refine quiet_join hg fun t ht => ?_
  rcases List.mem_append.1 ht with ht | ht
  · obtain ⟨p, -, rfl⟩ := List.mem_map.1 ht
    exact .gap_append hg p.lead (.append_gap hg p.trail (p.part.quiet hg))
  · obtain ⟨gap, -, rfl⟩ := List.mem_map.1 ht
    exact .of_not_mem gap.point_not_mem

theorem Binding.quiet (hg : g.IsApart) (b : Binding g) (hs : Quiet g.carrier s) :
    Quiet g.carrier (b.render s) := by
  have hk : .char '.' ∉ b.keyword.1 ++ b.behindKeyword.1 := by
    simp
  have he : Quiet g.carrier b.beforeEquals.1 := .of_not_mem b.beforeEquals.point_not_mem
  have hsubject := he.append_cons hg (c := .char '=') (by decide)
    (.gap_append hg b.behindEquals hs)
  have hbody := (b.quiet_inside hg).append_cons hg (c := .char '}') (by decide) hsubject
  have h := Quiet.append_cons hg (.of_not_mem hk) (c := .char '{') (by decide) hbody
  simpa [render] using h

end Quiet

section Chains

variable {carrier t u : Text} {before : Option CodePoint}

theorem exists_of_access {o : Text × Text} (h : access carrier before t = some o) :
    ∃ mark ∈ chainMarks, carrier ++ mark <+: t := by
  simp only [access, Option.bind_eq_bind, Option.bind_eq_some_iff] at h
  obtain ⟨-, -, r, hr, hc⟩ := h
  obtain rfl := Text.eq_append_of_after hr
  have hstep : ∃ mark ∈ chainMarks, ∃ v, Text.after mark r = some v := by
    cases hn : r.length with
    | zero =>
      rw [hn, accessChain?] at hc
      cases hc
    | succ n =>
      simp only [hn, accessChain?, accessStep?, Option.bind_eq_bind, Option.bind_eq_some_iff,
        Option.orElse_eq_orElse, Option.orElse_eq_or, Option.or_eq_some_iff] at hc
      obtain ⟨_, ⟨v, hv | ⟨-, hv⟩, -⟩, -⟩ := hc
      · exact ⟨"?.", by decide, v, hv⟩
      · exact ⟨".", by decide, v, hv⟩
  obtain ⟨mark, hm, v, hv⟩ := hstep
  exact ⟨mark, hm, v, by rw [Text.eq_append_of_after hv, List.append_assoc]⟩

/-- A step is read up to what is no part of its name. -/
theorem accessStep?_render (s : Step) (ht : ∀ c ∈ t.head?, c.isName = false) :
    accessStep? (s.render ++ t) = some (s.name.1, t) := by
  obtain ⟨c, r, hn, hc, hr⟩ := Text.exists_cons_of_isIdentifier s.name.2
  have hm : ∀ v : Text, (Text.after "?." (s.mark ++ v) <|> Text.after "." (s.mark ++ v)) =
      some v := by
    intro v
    rw [Step.mark]
    split
    · rw [Text.after_append]
      rfl
    · rw [Text.after_append]
      rfl
  rw [Step.render, List.append_assoc, accessStep?, hm, hn]
  simp only [Option.bind_eq_bind, Option.bind_some, List.cons_append, hc, if_true]
  rw [Text.takeWhile_append_of_stop hr ht, Text.dropWhile_append_of_stop hr ht]

theorem Step.render_head (s : Step) (t : Text) : ∀ c ∈ (s.render ++ t).head?, c.isName = false := by
  intro c hc
  rw [Step.render, Step.mark] at hc
  split at hc
  · obtain rfl := Option.some.inj hc
    decide
  · obtain rfl := Option.some.inj hc
    decide

theorem steps_head (ss : List Step) (t : Text) :
    ∀ c ∈ (ss.flatMap Step.render ++ .char ';' :: t).head?, c.isName = false := by
  cases ss with
  | nil =>
    intro c hc
    obtain rfl := Option.some.inj hc
    decide
  | cons s ss =>
    rw [List.flatMap_cons, List.append_assoc]
    exact s.render_head _

theorem accessChain?_semicolon (fuel : Nat) (t : Text) :
    accessChain? fuel (.char ';' :: t) = none := by
  cases fuel <;> rfl

theorem accessChain?_steps (fuel : Nat) (s : Step) (ss : List Step) (t : Text)
    (hf : ss.length < fuel) :
    accessChain? fuel ((s :: ss).flatMap Step.render ++ .char ';' :: t) =
      some ((ss.getLastD s).name.1, .char ';' :: t) := by
  induction ss generalizing s fuel with
  | nil =>
    obtain ⟨n, rfl⟩ := Nat.exists_eq_add_one_of_ne_zero (Nat.ne_of_gt hf)
    have hs := accessStep?_render s (steps_head [] t)
    simp only [List.flatMap_nil, List.nil_append] at hs
    simp [accessChain?, hs, accessChain?_semicolon]
  | cons s' ss ih =>
    obtain ⟨n, rfl⟩ := Nat.exists_eq_add_one_of_ne_zero (Nat.ne_of_gt (Nat.zero_lt_of_lt hf))
    have hs := accessStep?_render s (steps_head (s' :: ss) t)
    have hn := ih n s' (by simpa using hf)
    rw [List.flatMap_cons, List.append_assoc, accessChain?, hs]
    simp only [Option.bind_eq_bind, Option.bind_some, hn]
    rw [List.getLastD_cons]
    rfl

theorem length_le_length_steps (ss : List Step) : ss.length ≤ (ss.flatMap Step.render).length := by
  induction ss with
  | nil => simp
  | cons s ss ih =>
    have hm : 0 < s.mark.length := by
      unfold Step.mark
      split <;> decide
    simp only [List.flatMap_cons, List.length_append, List.length_cons, Step.render]
    omega

theorem access_steps (carrier : Text) (a : Lookup) (t : Text)
    (hb : ∀ c ∈ before, c.isName = false ∧ c ≠ .char '.') :
    access carrier before ((carrier ++ a.chain.flatMap Step.render) ++ .char ';' :: t) =
      some (a.last, .char ';' :: t) := by
  have hguard : (before.all fun c : CodePoint => !c.isName && c != '.') = true := by
    cases before with
    | none => rfl
    | some c => simp [hb c (by simp)]
  have hl := length_le_length_steps a.chain
  have hf : a.more.length < (a.chain.flatMap Step.render ++ .char ';' :: t).length := by
    simp only [Lookup.chain, List.length_cons, List.length_append] at hl ⊢
    omega
  have hc := accessChain?_steps _ a.first a.more t hf
  rw [List.append_assoc, access, Text.after_append]
  simp only [hguard, guard, if_true]
  exact hc

end Chains

section Search

variable {g : Grammar} {t u : Text} {before : Option CodePoint}

theorem refuses_access (hg : g.IsApart) {c : CodePoint} (hc : c.isNameStart = false) :
    Text.Refuses (access g.carrier) c := by
  intro before t
  obtain ⟨d, r, hd, hn⟩ := hg.exists_cons_carrier
  rw [Option.eq_none_iff_forall_not_mem]
  intro o ho
  obtain ⟨mark, -, hp⟩ := exists_of_access ho
  rw [hd, List.cons_append, List.cons_prefix_cons] at hp
  exact CodePoint.ne_of_class hn hc hp.1

/-- In a quiet text nothing is found, and no access reaches over a divider. -/
theorem misses_access_of_quiet (hg : g.IsApart) (hu : Quiet g.carrier u) {c : CodePoint}
    (hc : divides c) : Text.Misses (access g.carrier) before u (c :: t) := by
  rw [Text.misses_iff]
  intro v d w hv
  rw [Option.eq_none_iff_forall_not_mem]
  intro o ho
  obtain ⟨mark, hm, hp⟩ := exists_of_access ho
  have hi : g.carrier ++ mark <+: d :: w := by
    rw [← List.cons_append] at hp
    exact Text.prefix_of_prefix_append_cons (not_mem_of_divides hg hc hm) hp
  exact hu mark hm (hi.isInfix.trans (by rw [hv]; exact (List.suffix_append v _).isInfix))

theorem Variant.quiet (hg : g.IsApart) (w : Variant g) : Quiet g.carrier w.1 :=
  .of_not_mem fun h => absurd (hg.forall_variant w _ h) (by decide)

/-- The part of a lookup before its chain, which ends with an equals sign and white space. -/
def Lookup.opening (a : Lookup) : Text :=
  (a.keyword.1 ++ (a.behindKeyword.1 ++ (a.target.1 ++ a.beforeEquals.1))) ++
    .char '=' :: a.behindEquals.1

theorem Lookup.misses_opening (hg : g.IsApart) (a : Lookup) (t : Text) :
    Text.Misses (access g.carrier) before a.opening t := by
  have hk : .char '.' ∉ a.keyword.1 ++ (a.behindKeyword.1 ++ (a.target.1 ++ a.beforeEquals.1)) := by
    simp
  have hgap : ∀ c ∈ .char '=' :: a.behindEquals.1, c.isNameStart = false := by
    simp only [List.forall_mem_cons]
    exact ⟨by decide, fun c hc =>
      CodePoint.isNameStart_of_isBlank (Text.forall_of_isBlank a.behindEquals.2 c hc)⟩
  rw [opening, Text.misses_append]
  exact ⟨misses_access_of_quiet hg (.of_not_mem hk) (by decide),
    Text.misses_of_refuses fun c hc => refuses_access hg (hgap c hc)⟩

/-- Neither a name nor a point stands before the chain of a lookup. -/
theorem Lookup.opening_last (a : Lookup) (before : Option CodePoint) :
    ∀ c ∈ a.opening.getLast?.or before, c.isName = false ∧ c ≠ .char '.' := by
  intro c hc
  have hl : a.opening.getLast? = some (a.behindEquals.1.getLast?.getD (.char '=')) := by
    simp [opening, List.getLast?_append, List.getLast?_cons]
  rw [hl, Option.some_or] at hc
  obtain rfl := Option.some.inj hc
  cases hg : a.behindEquals.1.getLast? with
  | none => decide
  | some d =>
    have hd := Text.forall_of_isBlank a.behindEquals.2 d (List.mem_of_getLast? hg)
    exact ⟨CodePoint.isName_of_isBlank hd, CodePoint.ne_of_class hd (by decide)⟩

/-- The lookups of a body are found, each with the last name of its chain. -/
theorem occurrences_access (hg : g.IsApart) (before : Option CodePoint) (tail : Gap)
    (ss : List (Statement g)) :
    Text.occurrencesFrom (access g.carrier) before 0 (bodyText tail ss) =
      (found Form.accessed? tail ss).map fun o => (o.1.last, o.2) := by
  refine occurrencesFrom_bodyText
    (fun c h => refuses_access hg (CodePoint.isNameStart_of_isBlank h))
    (refuses_access hg (by decide)) (fun before form t => ?_) before tail ss
  cases form with
  | carried b =>
    have hq := b.quiet hg quiet_carrier
    exact ⟨_, Text.occurrencesFrom_append_of_misses (misses_access_of_quiet hg hq (by decide))⟩
  | wrapped b w =>
    have hq := b.quiet hg (Variant.quiet hg w)
    exact ⟨_, Text.occurrencesFrom_append_of_misses (misses_access_of_quiet hg hq (by decide))⟩
  | accessed a =>
    have hr : a.render g.carrier =
        a.opening ++ (g.carrier ++ a.chain.flatMap Step.render) := by
      simp [Lookup.render, Lookup.opening]
    have hne : g.carrier ++ a.chain.flatMap Step.render ≠ [] := by
      obtain ⟨c, r, hc, -⟩ := hg.exists_cons_carrier
      simp [hc]
    have hs := access_steps g.carrier a t (a.opening_last before)
    rw [Form.render, hr, List.append_assoc,
      Text.occurrencesFrom_append_of_misses (a.misses_opening hg _)]
    exact ⟨_, Text.occurrencesFrom_append_of_eq_some hne hs⟩

end Search

end RouteAtlas.Source
