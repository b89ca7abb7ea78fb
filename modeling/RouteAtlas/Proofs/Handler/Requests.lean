import Mathlib.Data.List.Basic
import Mathlib.Tactic.Common
import RouteAtlas.Proofs.Handler.Access
import RouteAtlas.Proofs.Handler.Destructuring

/-!
# Request fields of a handler body

The three searches over a body find its statements and nothing else, and together they give the
request fields.
-/

namespace RouteAtlas.Source

section

variable {g : Grammar}

def Binding.bindsWrapper (b : Binding g) : Bool := b.names.any fun n => n.lower == g.wrapper.lower

/-- The names of the first destructuring of the wrapper behind the first one of the carrier that
binds the wrapper. -/
def wrapperBound : List (Statement g) → List Text
  | [] => []
  | s :: ss =>
    if s.form.carried?.any Binding.bindsWrapper then
      ((ss.findSome? (·.form.wrapped?)).map Binding.names).getD []
    else wrapperBound ss

def carrierBound (ss : List (Statement g)) : List Text :=
  (ss.filterMap (·.form.carried?)).flatMap Binding.names

def accessed (ss : List (Statement g)) : List Text :=
  (ss.filterMap (·.form.accessed?)).map Lookup.last

theorem Binding.ne_nil_of_mem_names (b : Binding g) {n : Text} (h : n ∈ b.names) : n ≠ [] := by
  obtain ⟨e, -, he⟩ := List.mem_filterMap.1 h
  cases e with
  | named name rename fallback =>
    obtain rfl := Option.some.inj he
    exact name.ne_nil
  | rest name => cases he

theorem ne_nil_of_mem_wrapperBound {ss : List (Statement g)} {n : Text} (h : n ∈ wrapperBound ss) :
    n ≠ [] := by
  induction ss with
  | nil => cases h
  | cons s ss ih =>
    rw [wrapperBound] at h
    split at h
    · cases hf : ss.findSome? (·.form.wrapped?) with
      | none =>
        rw [hf] at h
        cases h
      | some b =>
        rw [hf] at h
        exact b.ne_nil_of_mem_names h
    · exact ih h

theorem ne_nil_of_mem_carrierBound {ss : List (Statement g)} {n : Text} (h : n ∈ carrierBound ss) :
    n ≠ [] := by
  obtain ⟨b, -, hb⟩ := List.mem_flatMap.1 h
  exact b.ne_nil_of_mem_names hb

theorem ne_nil_of_mem_accessed {ss : List (Statement g)} {n : Text} (h : n ∈ accessed ss) :
    n ≠ [] := by
  obtain ⟨a, -, rfl⟩ := List.mem_map.1 h
  exact (a.more.getLastD a.first).name.ne_nil

theorem head?_found (tail : Gap) (ss : List (Statement g)) :
    (found Form.wrapped? tail ss).head?.map (·.1) = ss.findSome? (·.form.wrapped?) := by
  rw [← List.head?_map, map_found, List.head?_filterMap]

theorem contains_wrapper (b : Binding g) :
    ((boundNames b.inside).map Text.lower).contains g.wrapper.lower = b.bindsWrapper := by
  rw [b.boundNames_inside, Binding.bindsWrapper, Bool.eq_iff_iff]
  simp

theorem find?_found (tail : Gap) (ss : List (Statement g)) :
    match (found Form.carried? tail ss).find? (·.1.bindsWrapper) with
    | none => wrapperBound ss = []
    | some o => ∃ next : List (Statement g), o.2 = .char ';' :: bodyText tail next ∧
        wrapperBound ss = ((next.findSome? (·.form.wrapped?)).map Binding.names).getD [] := by
  induction ss with
  | nil => rfl
  | cons s ss ih =>
    cases hc : s.form.carried? with
    | none => simpa [found, wrapperBound, hc] using ih
    | some b =>
      cases hb : b.bindsWrapper with
      | false => simpa [found, wrapperBound, hc, hb] using ih
      | true =>
        simp only [found, wrapperBound, hc, hb, Option.any_some, List.find?_cons_of_pos, if_true]
        exact ⟨ss, rfl, rfl⟩

theorem wrappedNames_bodyText (hg : g.IsApart) (tail : Gap) (ss : List (Statement g)) :
    wrappedNames g (bodyText tail ss) = wrapperBound ss := by
  have hcarrier := occurrences_destructuring hg reads_after (destructuring_carrier hg) none tail ss
  have hbinds : (fun o : Text × Text => ((boundNames o.1).map Text.lower).contains
      g.wrapper.lower) ∘ (fun o : Binding g × Text => (o.1.inside, o.2)) =
        fun o => o.1.bindsWrapper := funext fun o => contains_wrapper o.1
  have hfound := find?_found tail ss
  rw [wrappedNames, Text.occurrences, hcarrier, List.find?_map, hbinds]
  cases hf : (found Form.carried? tail ss).find? (·.1.bindsWrapper) with
  | none =>
    rw [hf] at hfound
    exact hfound.symm
  | some o =>
    rw [hf] at hfound
    obtain ⟨next, hrest, hbound⟩ := hfound
    have hsemi : Text.Misses (destructuring Text.afterAgreeing g.wrapper) none [.char ';']
        (bodyText tail next) := Text.misses_of_refuses (by
      simpa using refuses_destructuring reads_afterAgreeing (by decide))
    have hwrapper : Text.occurrences (destructuring Text.afterAgreeing g.wrapper) o.2 =
        (found Form.wrapped? tail next).map fun o => (o.1.inside, o.2) := by
      rw [hrest]
      exact (Text.occurrencesFrom_append_of_misses hsemi).trans
        (occurrences_destructuring hg reads_afterAgreeing (destructuring_wrapper hg) _ tail next)
    simp only [Option.map_some, hwrapper, hbound, ← head?_found tail next, List.head?_map]
    cases (found Form.wrapped? tail next).head? with
    | none => rfl
    | some o => exact o.1.boundNames_inside

/-- The request fields of a body are the names that it binds from the wrapper, those that it binds
from the carrier and the ends of its access chains, each at its first place and the wrapper, in any
case, left out. -/
theorem requestFields_bodyText (hg : g.IsApart) (tail : Gap) (ss : List (Statement g)) :
    requestFields g (bodyText tail ss) =
      Text.distinct ((wrapperBound ss ++ carrierBound ss ++ accessed ss).filter
        fun n => n.lower != g.wrapper.lower) := by
  have hcarrier := occurrences_destructuring hg reads_after (destructuring_carrier hg) none tail ss
  have haccess := occurrences_access hg none tail ss
  have hbound : ((found Form.carried? tail ss).map fun o => (o.1.inside, o.2)).flatMap
      (boundNames ·.1) = carrierBound ss := by
    rw [carrierBound, ← map_found Form.carried? tail, List.flatMap_map, List.flatMap_map]
    exact List.flatMap_congr fun o _ => o.1.boundNames_inside
  have hlast : ((found Form.accessed? tail ss).map fun o => (o.1.last, o.2)).map (·.1) =
      accessed ss := by
    rw [accessed, ← map_found Form.accessed? tail, List.map_map, List.map_map]
    rfl
  have hne : ∀ n ∈ wrapperBound ss ++ carrierBound ss ++ accessed ss, n ≠ [] := by
    simp only [List.forall_mem_append]
    exact ⟨⟨fun _ => ne_nil_of_mem_wrapperBound, fun _ => ne_nil_of_mem_carrierBound⟩,
      fun _ => ne_nil_of_mem_accessed⟩
  rw [requestFields, wrappedNames_bodyText hg]
  simp only [Text.occurrences, hcarrier, haccess, hbound, hlast]
  refine congrArg Text.distinct (List.filter_congr fun n hn => ?_)
  have hn' : n.isEmpty = false := by
    simpa using hne n hn
  simp [hn']

end

theorem isApart_default : ({} : Grammar).IsApart :=
  ⟨by decide, by decide, by decide, by decide, by decide⟩

theorem balanced_pair : Balanced false " [1, 2]" := by
  have hi : Balanced true "1, 2" := .plain rfl (.comma (.of_plain (by decide)))
  exact .plain rfl (Balanced.group .square hi .nil)

theorem carrier_not_in_pair : ¬ ({} : Grammar).carrier <:+: " [1, 2]" := fun h =>
  absurd (h.subset (a := .char '.') (by decide)) (by decide)

theorem lower_capitals : Text.lower "REQDATA" = Text.lower ({} : Grammar).wrapper := by
  decide +kernel

def wrappedBody : List (Statement {}) :=
  [⟨.empty, .carried ⟨⟨"const", .head _⟩, .space,
      ⟨[⟨.space, .named ⟨"reqData", rfl⟩ none none, .empty⟩,
        ⟨.space, .named ⟨"team", rfl⟩ (some (.empty, .space, ⟨"teamId", rfl⟩))
          (some (.space, ⟨" [1, 2]", balanced_pair, List.all_eq_true.1 rfl,
            carrier_not_in_pair⟩)), .empty⟩,
        ⟨.space, .rest ⟨"others", rfl⟩, .space⟩], none⟩, .space, .space⟩⟩,
    ⟨⟨"\n", rfl⟩, .wrapped ⟨⟨"let", .tail _ (.head _)⟩, .space,
      ⟨[⟨.space, .named ⟨"name", rfl⟩ none none, .space⟩], none⟩, .space, .space⟩
      ⟨"REQDATA", rfl, lower_capitals⟩⟩,
    ⟨⟨"\n", rfl⟩, .accessed ⟨⟨"var", .tail _ (.tail _ (.head _))⟩, .space, ⟨"age", rfl⟩, .space,
      .space, ⟨true, ⟨"user", rfl⟩⟩, [⟨false, ⟨"age", rfl⟩⟩]⟩⟩]

theorem requestFields_wrappedBody :
    bodyText ⟨"\n", rfl⟩ wrappedBody =
      ("const \x7b reqData, team: teamId = [1, 2], ...others \x7d = req.body;\n" ++
        "let \x7b name \x7d = REQDATA;\nvar age = req.body?.user.age;\n" : Text) ∧
    requestFields {} (bodyText ⟨"\n", rfl⟩ wrappedBody) = ["name", "team", "age"] := by
  constructor
  · decide
  · exact (requestFields_bodyText isApart_default _ _).trans (by decide)

end RouteAtlas.Source
