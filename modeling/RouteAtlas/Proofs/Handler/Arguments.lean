import Mathlib.Data.Nat.Find
import RouteAtlas.Proofs.Handler.ObjectLiteral
import RouteAtlas.Proofs.Handler.Payload
import RouteAtlas.Proofs.Handler.Pieces

/-!
# Arguments of a call in its source

A call is scanned up to the bracket that closes it, and its inside once more for the commas. The two
scans go in step: they agree on every literal, and the first has one bracket more open.
-/

namespace RouteAtlas.Source

namespace Place

variable {P : Place → CodePoint → Prop} {commas : Bool} {p : Place} {c : CodePoint} {t : Text}
  {d : Int}

theorem along_iff : p.Along P t ↔ ∀ s c r, t = s ++ c :: r → P (p.run s) c := by
  induction t generalizing p with
  | nil => simp [Along]
  | cons d t ih =>
    rw [Along, ih]
    constructor
    · rintro ⟨hd, ht⟩ s c r he
      cases s with
      | nil =>
        obtain ⟨rfl, rfl⟩ := List.cons.inj he
        exact hd
      | cons e s =>
        obtain ⟨rfl, rfl⟩ := List.cons.inj he
        exact ht s c r rfl
    · exact fun h => ⟨h [] d t rfl, fun s c r he => h (d :: s) c r (by simp [he])⟩

theorem le_depth_step_of_above (h : p.Above d commas c) (hp : d ≤ p.depth) :
    d ≤ (p.step c).depth := by
  by_cases hm : p.mode = .code
  · rw [depth_step_of_code hm]
    by_cases hc : isCloser c
    · have : d < p.depth := (h hm).1 hc
      rw [if_pos hc]
      split <;> omega
    · rw [if_neg hc]
      split <;> omega
  · rwa [depth_step_of_quoted hm]

theorem le_depth_run_of_above (h : p.Along (Above d commas) t) (hp : d ≤ p.depth) :
    d ≤ (p.run t).depth := by
  induction t generalizing p with
  | nil => exact hp
  | cons c t ih => exact ih h.2 (le_depth_step_of_above h.1 hp)

end Place

/-- Outside of literals no bracket closes in a text before one is opened for it, as many are closed
as opened, and no comma stands outside of all brackets. -/
structure IsArgument (t : Text) : Prop where
  covered : ∀ s, s <+: t →
    (Place.start.outside s).countP isCloser ≤ (Place.start.outside s).countP isOpener
  level : IsLevel t
  uncut : Uncut .start t

section

variable {s t : Text}

theorem countP_isCloser_le_iff :
    (Place.start.outside s).countP isCloser ≤ (Place.start.outside s).countP isOpener ↔
      0 ≤ (Place.start.run s).depth := by
  have h0 : Place.start.depth = 0 := rfl
  rw [Place.depth_run, h0]
  omega

theorem Closed.isArgument (h : Closed false t) : IsArgument t where
  covered := by
    rintro s ⟨r, rfl⟩
    have ha := (Place.along_append.1 h.above).1
    exact countP_isCloser_le_iff.2 (Place.le_depth_run_of_above ha (Int.le_refl 0))
  level := isLevel_iff.2 h.run
  uncut := h.above.mono fun _ _ hq => hq.not_outer

theorem IsArgument.closed (h : IsArgument t) : Closed false t where
  run := isLevel_iff.1 h.level
  above := Place.along_iff.2 fun s c r he hm => by
    have hs : 0 ≤ (Place.start.run s).depth :=
      countP_isCloser_le_iff.1 (h.covered s (he ▸ List.prefix_append s _))
    constructor
    · intro hc
      have hp : s ++ [c] <+: t := ⟨r, by simp [he]⟩
      have hd := countP_isCloser_le_iff.1 (h.covered _ hp)
      have hn : isOpener c = false := Bool.eq_false_iff.2 fun ho => by
        simp [Place.isCloser_of_isOpener ho] at hc
      rw [Place.run_append, Place.run_cons, Place.run_nil, Place.depth_step_of_code hm] at hd
      simp only [hc, hn, if_true, Bool.false_eq_true, if_false] at hd
      omega
    · intro hc
      have ho : ¬ (Place.start.run s).isOuter := fun ho =>
        Place.along_iff.1 h.uncut s c r he ⟨hc, ho⟩
      simp only [Place.isOuter, hm, beq_self_eq_true, Bool.true_and, beq_iff_eq] at ho
      exact .inl (by omega)

theorem closed_iff_isArgument : Closed false t ↔ IsArgument t :=
  ⟨Closed.isArgument, IsArgument.closed⟩

end

/-- The pieces of two texts that follow each other, put together: the last of the first text goes on
in the first of the second. -/
def weld : List Text → List Text → List Text
  | [], qs => qs
  | [p], qs => qs.modifyHead (p ++ ·)
  | p :: q :: ps, qs => p :: weld (q :: ps) qs

/-- Where a text has been cut so far, the cutting goes on in the place that the scan has come to. -/
theorem cutOuter_append_eq_weld (p : Place) (s t : Text) :
    cutOuter p (s ++ t) = weld (cutOuter p s) (cutOuter (p.run s) t) := by
  induction s generalizing p with
  | nil =>
    show cutOuter p t = (cutOuter p t).modifyHead id
    rw [List.modifyHead_id, id]
  | cons c s ih =>
    rw [List.cons_append, cutOuter, cutOuter]
    by_cases hc : c = .char ',' ∧ p.isOuter
    · obtain rfl := isOuter_iff.1 hc.2
      obtain rfl := hc.1
      obtain ⟨q, qs, hq⟩ := List.exists_cons_of_ne_nil (cutOuter_ne_nil .start s)
      rw [if_pos hc, if_pos hc, ih, hq, weld]
      rfl
    · obtain ⟨q, qs, hq⟩ := List.exists_cons_of_ne_nil (cutOuter_ne_nil (p.step c) s)
      obtain ⟨r, rs, hr⟩ := List.exists_cons_of_ne_nil (cutOuter_ne_nil ((p.step c).run s) t)
      rw [if_neg hc, if_neg hc, ih, hq, Place.run_cons, hr]
      cases qs <;> rfl

section Extract

variable {source : Text} {i j k m n : Nat} {c : CodePoint}

theorem extract_succ (hi : i ≤ k) (hc : source[k]? = some c) :
    source.extract i (k + 1) = source.extract i k ++ [c] := by
  have hk : i + (k - i) = k := Nat.add_sub_cancel' hi
  rw [List.extract, Nat.succ_sub hi, List.take_add_one, List.getElem?_drop, hk, hc]
  rfl

theorem drop_eq_cons (hc : source[k]? = some c) : source.drop k = c :: source.drop (k + 1) := by
  rw [List.drop_eq_getElem?_toList_append, hc]
  rfl

theorem extract_eq_cons (hi : i < k) (hc : source[i]? = some c) :
    source.extract i k = c :: source.extract (i + 1) k := by
  have hk : k - i = k - (i + 1) + 1 := by omega
  rw [List.extract, drop_eq_cons hc, hk, List.take_succ_cons]

theorem extract_append (hi : i ≤ k) (hj : k ≤ j) :
    source.extract i j = source.extract i k ++ source.extract k j := by
  have hn : j - i = (k - i) + (j - k) := by omega
  rw [List.extract, hn, List.take_add, List.drop_drop, Nat.add_sub_cancel' hi]

theorem length_extract (hj : j ≤ source.length) : (source.extract i j).length = j - i := by
  rw [List.extract, List.length_take, List.length_drop]
  omega

theorem take_extract (hm : m ≤ n) :
    (source.extract i (i + n)).take m = source.extract i (i + m) := by
  simp [List.extract, List.take_take, Nat.min_eq_left hm]

theorem getElem?_extract_of_lt (hm : m < n) : (source.extract i (i + n))[m]? = source[i + m]? := by
  simp [List.extract, List.getElem?_drop, hm]

end Extract

/-- The place of a scan that begins at index `i` of a source when it comes to index `k`. -/
def placeAt (source : Text) (i k : Nat) : Place := Place.start.run (source.extract i k)

/-- Whether a scan from index `i` meets at index `k` a bracket that closes the only open one. -/
def ShutsAt (source : Text) (i k : Nat) : Prop :=
  placeAt source i k = ⟨.code, 1⟩ ∧ source[k]?.any isCloser

/-- The parenthesis at `i` opens a call, and the scan of the call finds its end at `j`. -/
structure ClosesAt (source : Text) (i j : Nat) : Prop where
  opens : source[i]? = some (.char '(')
  shuts : ShutsAt source i j
  first : ∀ k < j, ¬ ShutsAt source i k

/-- The arguments of the call whose parenthesis stands at index `i`. -/
def argumentsAt (source : Text) (i : Nat) : List Text := arguments (source.drop (i + 1))

section Scans

variable {source : Text} {i j k : Nat} {c : CodePoint}

instance : Decidable (ShutsAt source i k) := inferInstanceAs (Decidable (_ ∧ _))

theorem closesAt_iff : ClosesAt source i j ↔
    source[i]? = some (.char '(') ∧ ShutsAt source i j ∧ ∀ k < j, ¬ ShutsAt source i k :=
  ⟨fun h => ⟨h.opens, h.shuts, h.first⟩, fun h => ⟨h.1, h.2.1, h.2.2⟩⟩

instance : Decidable (ClosesAt source i j) := decidable_of_iff _ closesAt_iff.symm

theorem placeAt_of_le (h : k ≤ i) : placeAt source i k = .start := by
  simp [placeAt, List.extract, Nat.sub_eq_zero_of_le h]

theorem placeAt_succ (hi : i ≤ k) (hc : source[k]? = some c) :
    placeAt source i (k + 1) = (placeAt source i k).step c := by
  rw [placeAt, extract_succ hi hc, Place.run_append]
  rfl

theorem placeAt_behind (ho : source[i]? = some (.char '(')) :
    placeAt source i (i + 1) = ⟨.code, 1⟩ := by
  rw [placeAt_succ (Nat.le_refl i) ho, placeAt_of_le (Nat.le_refl i)]
  rfl

/-- Behind its parenthesis the scan of a call has one bracket more open than a scan that begins
there. -/
theorem placeAt_eq_deeper (ho : source[i]? = some (.char '(')) (hi : i < k) :
    placeAt source i k = (placeAt source (i + 1) k).deeper 1 := by
  rw [placeAt, extract_eq_cons hi ho, Place.run_cons, placeAt, ← Place.run_deeper]
  rfl

theorem ShutsAt.lt (h : ShutsAt source i k) : i < k := by
  by_contra hn
  have hp := h.1
  rw [placeAt_of_le (Nat.le_of_not_lt hn)] at hp
  simp [Place.start] at hp

theorem shutsAt_iff (hc : source[k]? = some c) : ShutsAt source i k ↔
    (placeAt source i k).mode = .code ∧ isCloser c ∧ (placeAt source i k).depth = 1 := by
  have hp : placeAt source i k = ⟨.code, 1⟩ ↔
      (placeAt source i k).mode = .code ∧ (placeAt source i k).depth = 1 := by
    cases placeAt source i k
    simp
  rw [ShutsAt, hc, Option.any_some, hp, and_assoc, and_comm (a := _ = (1 : Int))]

namespace ClosesAt

theorem lt (h : ClosesAt source i j) : i < j := h.shuts.lt

theorem lt_length (h : ClosesAt source i j) : j < source.length := by
  obtain ⟨c, hc, -⟩ := (Option.any_eq_true _ _).1 h.shuts.2
  exact (List.getElem?_eq_some_iff.1 hc).1

theorem exists_getElem? (h : ClosesAt source i j) (hk : k ≤ j) : ∃ c, source[k]? = some c :=
  ⟨_, List.getElem?_eq_getElem (Nat.lt_of_le_of_lt hk h.lt_length)⟩

/-- Up to the end of a call its parenthesis stays open. -/
theorem one_le_depth (h : ClosesAt source i j) (hi : i < k) (hj : k ≤ j) :
    1 ≤ (placeAt source i k).depth := by
  induction k, hi using Nat.le_induction with
  | base =>
    have hd : (placeAt source i (i + 1)).depth = 1 := congrArg Place.depth (placeAt_behind h.opens)
    exact Int.le_of_eq hd.symm
  | succ k hi ih =>
    obtain ⟨c, hc⟩ := h.exists_getElem? (Nat.le_of_succ_le hj)
    rw [placeAt_succ (Nat.le_of_succ_le hi) hc]
    exact Place.le_depth_step (ih (Nat.le_of_succ_le hj)) ((shutsAt_iff hc).not.1 (h.first k hj))

/-- From wherever the search for the end of a call has come to, it finds the end. -/
theorem enclosed_placeAt (h : ClosesAt source i j) (hi : i < k) (hj : k ≤ j) :
    enclosed (placeAt source i k) (source.drop k) = some (source.extract k j) := by
  induction hn : j - k generalizing k with
  | zero =>
    obtain rfl : k = j := by omega
    obtain ⟨c, hc⟩ := h.exists_getElem? hj
    rw [drop_eq_cons hc, enclosed, if_pos ((shutsAt_iff hc).1 h.shuts)]
    simp [List.extract]
  | succ n ih =>
    have hlt : k < j := by omega
    obtain ⟨c, hc⟩ := h.exists_getElem? hj
    rw [drop_eq_cons hc, enclosed, if_neg ((shutsAt_iff hc).not.1 (h.first k hlt)),
      ← placeAt_succ (Nat.le_of_lt hi) hc, ih (Nat.lt_succ_of_lt hi) hlt (by omega),
      Option.map_some, extract_eq_cons hlt hc]

theorem enclosed_drop (h : ClosesAt source i j) :
    enclosed ⟨.code, 1⟩ (source.drop (i + 1)) = some (source.extract (i + 1) j) := by
  rw [← placeAt_behind h.opens]
  exact h.enclosed_placeAt (Nat.lt_succ_self i) h.lt

theorem argumentsAt_eq (h : ClosesAt source i j) :
    argumentsAt source i = pieces (source.extract (i + 1) j) := by
  rw [argumentsAt, arguments, h.enclosed_drop]

theorem eq_add_length (h : ClosesAt source i j) :
    j = i + 1 + (source.extract (i + 1) j).length := by
  have hi := h.lt
  rw [length_extract (Nat.le_of_lt h.lt_length)]
  omega

theorem placeAt_eq_start (h : ClosesAt source i j) : placeAt source (i + 1) j = .start := by
  have hp := h.shuts.1
  rw [placeAt_eq_deeper h.opens h.lt] at hp
  exact Place.deeper_inj.1 hp

end ClosesAt

/-- The two scans of a call, which closes at `j`, when they come to index `k`: each goes on from its
place, and the places differ by the one bracket of the call. -/
structure InStep (source : Text) (i j k : Nat) : Prop where
  search : enclosed (placeAt source i k) (source.drop k) = some (source.extract k j)
  cutting : cutOuter .start (source.extract (i + 1) j) =
    weld (cutOuter .start (source.extract (i + 1) k))
      (cutOuter (placeAt source (i + 1) k) (source.extract k j))
  deeper : placeAt source i k = (placeAt source (i + 1) k).deeper 1
  nonneg : 0 ≤ (placeAt source (i + 1) k).depth

theorem ClosesAt.inStep (h : ClosesAt source i j) (hi : i < k) (hj : k ≤ j) :
    InStep source i j k where
  search := h.enclosed_placeAt hi hj
  cutting := by
    rw [extract_append hi hj]
    exact cutOuter_append_eq_weld .start _ _
  deeper := placeAt_eq_deeper h.opens hi
  nonneg := by
    have hd := h.one_le_depth hi hj
    rw [placeAt_eq_deeper h.opens hi] at hd
    have hd : 1 ≤ (placeAt source (i + 1) k).depth + 1 := hd
    omega

end Scans

section Local

variable {source source' : Text} {i i' j m n : Nat}

theorem placeAt_congr (hx : source'.extract i' (i' + n) = source.extract i (i + n)) (hm : m ≤ n) :
    placeAt source' i' (i' + m) = placeAt source i (i + m) := by
  rw [placeAt, placeAt, ← take_extract hm, hx, take_extract hm]

theorem shutsAt_congr (hx : source'.extract i' (i' + n) = source.extract i (i + n)) (hm : m < n) :
    ShutsAt source' i' (i' + m) ↔ ShutsAt source i (i + m) := by
  rw [ShutsAt, ShutsAt, placeAt_congr hx (Nat.le_of_lt hm), ← getElem?_extract_of_lt hm, hx,
    getElem?_extract_of_lt hm]

/-- A call closes wherever the text from its parenthesis to its end stands. -/
theorem ClosesAt.congr (h : ClosesAt source i (i + n))
    (hx : source'.extract i' (i' + (n + 1)) = source.extract i (i + (n + 1))) :
    ClosesAt source' i' (i' + n) where
  opens := by
    have ho : (source'.extract i' (i' + (n + 1)))[0]? = source'[i']? :=
      getElem?_extract_of_lt (Nat.zero_lt_succ n)
    rw [hx, getElem?_extract_of_lt (Nat.zero_lt_succ n)] at ho
    exact ho.symm.trans h.opens
  shuts := (shutsAt_congr hx (Nat.lt_succ_self n)).2 h.shuts
  first k hk hs := by
    obtain ⟨m, rfl⟩ := Nat.exists_eq_add_of_le (Nat.le_of_lt hs.lt)
    have hm : m < n := by omega
    exact h.first (i + m) (by omega) ((shutsAt_congr hx (Nat.lt_succ_of_lt hm)).1 hs)

theorem ClosesAt.argumentsAt_congr (h : ClosesAt source i (i + n))
    (hx : source'.extract i' (i' + (n + 1)) = source.extract i (i + (n + 1))) :
    argumentsAt source' i' = argumentsAt source i := by
  have h' := h.congr hx
  have ht : source'.extract i' (i' + n) = source.extract i (i + n) := by
    rw [← take_extract (Nat.le_succ n), hx, take_extract (Nat.le_succ n)]
  rw [extract_eq_cons h'.lt h'.opens, extract_eq_cons h.lt h.opens] at ht
  rw [h'.argumentsAt_eq, h.argumentsAt_eq, (List.cons.inj ht).2]

end Local

theorem extract_append_append (s t u : Text) :
    (s ++ t ++ u).extract s.length (s.length + t.length) = t := by
  simp [List.extract]

theorem eq_join_pieces (t : Text) : t = Text.join "," (pieces t) ∨
    ∃ tail : Text, tail.isBlank ∧ t = Text.join "," (pieces t ++ [tail]) := by
  have hj := join_cutOuter .start t
  rcases dropBlankLast_cases (cutOuter .start t) with h | ⟨tail, hb, h⟩
  · exact .inl (hj.symm.trans (congrArg _ h))
  · exact .inr ⟨tail, hb, hj.symm.trans (congrArg _ h)⟩

section Calls

variable {source argument inside : Text} {i j : Nat}

theorem shutsAt_of_enclosed (ho : source[i]? = some (.char '('))
    (h : enclosed ⟨.code, 1⟩ (source.drop (i + 1)) = some inside) :
    ShutsAt source i (i + 1 + inside.length) := by
  obtain ⟨close, rest, ht, hc, -, hr⟩ := exists_of_enclosed (Int.le_refl 1) h
  have hx : source.extract (i + 1) (i + 1 + inside.length) = inside := by
    rw [List.extract, ht, Nat.add_sub_cancel_left, List.take_left]
  constructor
  · rw [placeAt, extract_eq_cons (by omega) ho, hx]
    exact hr
  · rw [← List.getElem?_drop, ht, List.getElem?_append_right (Nat.le_refl _), Nat.sub_self]
    exact hc

theorem closesAt_iff_enclosed (ho : source[i]? = some (.char '(')) : ClosesAt source i j ↔
    ∃ inside, enclosed ⟨.code, 1⟩ (source.drop (i + 1)) = some inside ∧
      j = i + 1 + inside.length := by
  constructor
  · exact fun h => ⟨_, h.enclosed_drop, h.eq_add_length⟩
  · rintro ⟨inside, hi, rfl⟩
    have hs : ∃ k, ShutsAt source i k := ⟨_, shutsAt_of_enclosed ho hi⟩
    have h : ClosesAt source i (Nat.find hs) :=
      ⟨ho, Nat.find_spec hs, fun k => Nat.find_min hs⟩
    obtain rfl := Option.some.inj (h.enclosed_drop.symm.trans hi)
    rwa [← h.eq_add_length]

theorem argumentsAt_append (before rest : Text) :
    argumentsAt (before ++ .char '(' :: rest) before.length = arguments rest := by
  simp [argumentsAt]

theorem exists_closesAt (ho : source[i]? = some (.char '('))
    (h : argument ∈ argumentsAt source i) : ∃ j, ClosesAt source i j := by
  unfold argumentsAt arguments at h
  split at h
  · rename_i inside hi
    exact ⟨_, (closesAt_iff_enclosed ho).2 ⟨inside, hi, rfl⟩⟩
  · cases h

/-- What the response is read from is an argument of a call that closes in the source. -/
theorem exists_closesAt_of_responseLiteral? {g : Grammar}
    (h : responseLiteral? g source = some argument) :
    ∃ i j, ClosesAt source i j ∧ argument ∈ argumentsAt source i := by
  obtain ⟨callee, ⟨⟨⟩, rest⟩, hm, ha, -⟩ := exists_call_of_responseLiteral? h
  obtain ⟨u, s, rfl, hc⟩ := Text.exists_of_mem_occurrencesFrom hm
  rw [Option.or_none] at hc
  obtain ⟨-, gap, hg⟩ := call_eq_some.1 hc
  have hs : u ++ s = (u ++ (callee ++ gap.1)) ++ .char '(' :: rest := by simp [hg]
  have ho : (u ++ s)[(u ++ (callee ++ gap.1)).length]? = some (.char '(') := by
    rw [hs, List.getElem?_append_right (Nat.le_refl _), Nat.sub_self]
    rfl
  have hm : argument ∈ argumentsAt (u ++ s) (u ++ (callee ++ gap.1)).length := by
    rwa [hs, argumentsAt_append]
  obtain ⟨j, hj⟩ := exists_closesAt ho hm
  exact ⟨_, j, hj, hm⟩

end Calls

/-- The scan of a call and that of its arguments go in step to the end of the call, where all that
was opened in it is closed. The arguments are closed texts and make up the text of the call, but for
a blank end that may be left out, and they stay the same whatever stands around the call. -/
theorem argumentsAt_of_closesAt (source : Text) (i j : Nat) (h : ClosesAt source i j) :
    (∀ k, i < k → k ≤ j → InStep source i j k) ∧
    placeAt source (i + 1) j = .start ∧
    argumentsAt source i = pieces (source.extract (i + 1) j) ∧
    (∀ a ∈ argumentsAt source i, IsArgument a) ∧
    (source.extract (i + 1) j = Text.join "," (argumentsAt source i) ∨
      ∃ tail : Text, tail.isBlank ∧
        source.extract (i + 1) j = Text.join "," (argumentsAt source i ++ [tail])) ∧
    ∀ before after : Text,
      ClosesAt (before ++ source.extract i (j + 1) ++ after) before.length
        (before.length + (j - i)) ∧
      argumentsAt (before ++ source.extract i (j + 1) ++ after) before.length =
        argumentsAt source i := by
  have he := h.argumentsAt_eq
  refine ⟨fun k => h.inStep, h.placeAt_eq_start, he, fun a ha => ?_, ?_, fun before after => ?_⟩
  · exact (closed_of_mem_arguments ha).isArgument
  · rw [he]
    exact eq_join_pieces _
  · obtain ⟨n, rfl⟩ := Nat.exists_eq_add_of_le (Nat.le_of_lt h.lt)
    have hl : (source.extract i (i + (n + 1))).length = n + 1 :=
      (length_extract h.lt_length).trans (Nat.add_sub_cancel_left i (n + 1))
    have hx := extract_append_append before (source.extract i (i + (n + 1))) after
    rw [hl] at hx
    rw [Nat.add_sub_cancel_left]
    exact ⟨h.congr hx, h.argumentsAt_congr hx⟩

def oddCall : Text := "it's f(\"a)\\\"\", [b(c\x7d, 'd,'], ); g)"

theorem argumentsAt_of_closesAt_oddCall :
    ClosesAt oddCall 6 29 ∧ InStep oddCall 6 29 11 ∧ placeAt oddCall 7 29 = .start ∧
    argumentsAt oddCall 6 = ["\"a)\\\"\"", " [b(c\x7d, 'd,']"] ∧
    IsArgument " [b(c\x7d, 'd,']" ∧
    ∀ before after : Text, argumentsAt (before ++ oddCall.extract 6 30 ++ after) before.length =
      argumentsAt oddCall 6 := by
  have h : ClosesAt oddCall 6 29 := by decide
  obtain ⟨hk, hs, -, ha, -, hl⟩ := argumentsAt_of_closesAt oddCall 6 29 h
  have he : argumentsAt oddCall 6 = ["\"a)\\\"\"", " [b(c\x7d, 'd,']"] := by decide
  exact ⟨h, hk 11 (by decide) (by decide), hs, he, ha _ (by simp [he]),
    fun before after => (hl before after).2⟩

end RouteAtlas.Source
