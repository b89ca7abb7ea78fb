import Mathlib.Tactic.Common
import RouteAtlas.Proofs.Json.Data
import RouteAtlas.Proofs.Number.Decimal
import RouteAtlas.Yaml.Printer

/-!
# Objects in several places

Where all places with one mark hold one value, the objects that are met again are collections, and
each of them has a label of its own.
-/

namespace RouteAtlas

namespace Json

theorem bare_ne_shared (v : Json) (m : Nat) (w : Json) : v.bare ≠ .shared m w := by
  induction v using bare.induct with
  | case1 k v ih => exact ih
  | case2 v hv =>
    rw [bare]
    · rintro rfl
      exact hv m w rfl
    · exact hv

mutual

/-- The marks of a value stand for objects: each for one value, and each value has one mark. -/
def Shares (env : Nat → Json) : Json → Prop
  | .list vs => ItemsShare env vs
  | .obj fs => FieldsShare env fs
  | .shared m v => env m = v ∧ v.bare = v ∧ Shares env v
  | _ => True

def ItemsShare (env : Nat → Json) : List Json → Prop
  | [] => True
  | v :: vs => Shares env v ∧ ItemsShare env vs

def FieldsShare (env : Nat → Json) : List (Text × Json) → Prop
  | [] => True
  | (_, v) :: fs => Shares env v ∧ FieldsShare env fs

end

end Json

namespace Yaml

namespace Outline

section Survey

variable {env : Nat → Json} {depth : Nat}

/-- The objects met again are collections that are no deeper than a value. -/
def Census.IsSound (env : Nat → Json) (depth : Nat) (s : Census) : Prop :=
  ∀ m ∈ s.again, isCollection (env m) ∧ (env m).depth ≤ depth

mutual

theorem isSound_survey {v : Json} (hv : v.Shares env) (hd : v.depth ≤ depth) {s : Census}
    (hs : s.IsSound env depth) : (survey s v).IsSound env depth := by
  cases v with
  | list vs => exact isSound_surveyItems hv (Nat.le_of_succ_le hd) hs
  | obj fs => exact isSound_surveyFields hv (Nat.le_of_succ_le hd) hs
  | shared m v =>
    obtain ⟨he, -, hv⟩ := hv
    rw [survey]
    split
    · exact hs
    rename_i hc
    split
    · split
      · exact hs
      · intro k hk
        rcases List.mem_append.1 hk with hk | hk
        · exact hs k hk
        · obtain rfl := List.mem_singleton.1 hk
          exact he ▸ ⟨by simpa using hc, hd⟩
    · exact isSound_survey (v := v) hv hd (s := { s with met := m :: s.met }) hs
  | _ => exact hs

theorem isSound_surveyItems {vs : List Json} (hv : Json.ItemsShare env vs)
    (hd : Json.itemsDepth vs ≤ depth) {s : Census} (hs : s.IsSound env depth) :
    (surveyItems s vs).IsSound env depth := by
  cases vs with
  | nil => exact hs
  | cons v vs =>
    have hd := Nat.max_le.1 hd
    exact isSound_surveyItems hv.2 hd.2 (isSound_survey hv.1 hd.1 hs)

theorem isSound_surveyFields {fs : List (Text × Json)} (hv : Json.FieldsShare env fs)
    (hd : Json.fieldsDepth fs ≤ depth) {s : Census} (hs : s.IsSound env depth) :
    (surveyFields s fs).IsSound env depth := by
  cases fs with
  | nil => exact hs
  | cons f fs =>
    obtain ⟨k, v⟩ := f
    have hd := Nat.max_le.1 hd
    exact isSound_surveyFields hv.2 hd.2 (isSound_survey hv.1 hd.1 hs)

end

end Survey

section Numbers

variable {again : List Nat} {m m' n : Nat}

theorem getElem?_takeWhile (h : m ∈ again) :
    again[(again.takeWhile (· != m)).length]? = some m := by
  induction again with
  | nil => cases h
  | cons k again ih =>
    by_cases hk : k = m
    · simp [hk]
    · have := ih ((List.mem_cons.1 h).resolve_left (Ne.symm hk))
      simp [hk, this]

theorem mem_of_number? (h : number? again m = some n) : m ∈ again := by
  unfold number? at h
  split at h
  · assumption
  · cases h

theorem number?_inj (h : number? again m = some n) (h' : number? again m' = some n) : m = m' := by
  have hm := getElem?_takeWhile (mem_of_number? h)
  have hm' := getElem?_takeWhile (mem_of_number? h')
  rw [number?, if_pos (mem_of_number? h), Option.some.injEq] at h
  rw [number?, if_pos (mem_of_number? h'), Option.some.injEq] at h'
  have hl : (again.takeWhile (· != m)).length = (again.takeWhile (· != m')).length := by omega
  rw [hl, hm'] at hm
  exact (Option.some.inj hm).symm

end Numbers

end Outline

theorem anchorLabel_inj {m n : Nat} (h : anchorLabel m = anchorLabel n) : m = n := by
  have hp (n : Nat) : ∃ k, Decimal.padded 3 n =
      (List.replicate k '0' ++ Nat.toDigits 10 n).map CodePoint.char :=
    ⟨3 - (Text.ofNat n).length, by simp [Decimal.padded, Text.ofNat]⟩
  obtain ⟨j, hj⟩ := hp m
  obtain ⟨k, hk⟩ := hp n
  have h := List.append_cancel_left h
  rw [hj, hk] at h
  have hinj : ∀ c d : Char, CodePoint.char c = .char d → c = d := fun _ _ h => by injection h
  have h := congrArg Decimal.ofDigits ((List.map_inj_right hinj).1 h)
  rwa [Decimal.ofDigits_zeros, Decimal.ofDigits_zeros, Decimal.ofDigits_toDigits,
    Decimal.ofDigits_toDigits] at h

end Yaml

end RouteAtlas
