import RouteAtlas.Proofs.Handler.Balanced

/-!
# Closed source text

A closed text closes all brackets and literals that it opens and no others; of which kind brackets
are does not count. Every argument of a call is closed, however its source is written.
-/

namespace RouteAtlas.Source

namespace Place

variable {P Q : Place → CodePoint → Prop} {commas : Bool} {p : Place} {c : CodePoint} {t : Text}
  {d n : Int}

def decidableAlong [∀ q c, Decidable (P q c)] (p : Place) : (t : Text) → Decidable (p.Along P t)
  | [] => .isTrue trivial
  | c :: r =>
    have : Decidable ((p.step c).Along P r) := decidableAlong (p.step c) r
    inferInstanceAs (Decidable (P p c ∧ (p.step c).Along P r))

instance [∀ q c, Decidable (P q c)] : Decidable (p.Along P t) := decidableAlong p t

instance : Decidable (p.Above d commas c) := inferInstanceAs (Decidable (_ → _))

def deeper (n : Int) (p : Place) : Place := ⟨p.mode, p.depth + n⟩

theorem step_deeper : (p.deeper n).step c = (p.step c).deeper n := by
  obtain ⟨m, e⟩ := p
  cases m with
  | escaped q => rfl
  | quoted q =>
    simp only [step, deeper]
    split
    · rfl
    · split <;> rfl
  | code =>
    simp only [step, deeper]
    split
    · rfl
    · split
      · simp [Int.add_right_comm]
      · split
        · rw [Int.sub_eq_add_neg, Int.add_right_comm]
          rfl
        · rfl

theorem deeper_inj {q : Place} : p.deeper n = q.deeper n ↔ p = q := by
  obtain ⟨m, e⟩ := p
  obtain ⟨k, f⟩ := q
  simp [deeper]

theorem run_deeper : (p.deeper n).run t = (p.run t).deeper n := by
  induction t generalizing p with
  | nil => rfl
  | cons c t ih => rw [run_cons, run_cons, step_deeper, ih]

theorem above_deeper : (p.deeper n).Above (d + n) commas c ↔ p.Above d commas c := by
  simp [Above, deeper]

theorem along_deeper :
    (p.deeper n).Along (Above (d + n) commas) t ↔ p.Along (Above d commas) t := by
  induction t generalizing p with
  | nil => rfl
  | cons c t ih => rw [Along, Along, above_deeper, step_deeper, ih]

theorem step_opener (hc : isOpener c) : (mk .code d).step c = ⟨.code, d + 1⟩ := by
  simp only [isOpener, Bool.or_eq_true, beq_iff_eq] at hc
  rcases hc with (rfl | rfl) | rfl <;> rfl

theorem step_closer (hc : isCloser c) : (mk .code d).step c = ⟨.code, d - 1⟩ := by
  simp only [isCloser, Bool.or_eq_true, beq_iff_eq] at hc
  rcases hc with (rfl | rfl) | rfl <;> rfl

theorem le_depth_step (hp : 1 ≤ p.depth)
    (hc : ¬ (p.mode = .code ∧ isCloser c ∧ p.depth = 1)) : 1 ≤ (p.step c).depth := by
  obtain ⟨m, e⟩ := p
  cases m with
  | escaped q => exact hp
  | quoted q =>
    simp only [step]
    split
    · exact hp
    · split <;> exact hp
  | code =>
    simp only [step]
    split
    · exact hp
    · split
      · exact Int.le_trans hp (Int.le_add_one (Int.le_refl e))
      · split
        · rename_i hk
          have he : e ≠ 1 := fun he => hc ⟨rfl, hk, he⟩
          have hp : 1 ≤ e := hp
          show 1 ≤ e - 1
          omega
        · exact hp

/-- Whether the literal that a place stands in, if any, was opened by a quote. -/
def IsProper (p : Place) : Prop := ∀ q, p.mode = .quoted q ∨ p.mode = .escaped q → isQuote q

theorem isProper_start : start.IsProper := by
  simp [IsProper, start]

theorem IsProper.step (h : p.IsProper) (c : CodePoint) : (p.step c).IsProper := by
  obtain ⟨m, e⟩ := p
  intro q hq
  cases m with
  | escaped k => exact h q (by simpa [Place.step] using hq)
  | quoted k =>
    refine h q ?_
    simp only [Place.step] at hq
    split at hq
    · simpa using hq
    · split at hq
      · simp at hq
      · exact hq
  | code =>
    simp only [Place.step] at hq
    split at hq
    · rename_i hc
      obtain rfl : c = q := by simpa using hq
      exact hc
    · exact absurd hq (by split <;> (try split) <;> simp)

theorem IsProper.run (h : p.IsProper) (t : Text) : (p.run t).IsProper := by
  induction t generalizing p with
  | nil => exact h
  | cons c t ih => exact ih (h.step c)

/-- Plain characters do not end a literal. -/
theorem IsProper.eq_of_step_plain (h : p.IsProper) (hc : isPlain c)
    (hs : p.step c = ⟨.code, d⟩) : p = ⟨.code, d⟩ := by
  obtain ⟨m, e⟩ := p
  cases m with
  | escaped q => simp [Place.step] at hs
  | quoted q =>
    have hq : isQuote q := h q (.inl rfl)
    have hn : c ≠ q := by
      rintro rfl
      simp [(isPlain_iff.1 hc).1] at hq
    simp only [Place.step, if_neg hn] at hs
    split at hs <;> simp at hs
  | code => rwa [step_plain hc] at hs

theorem IsProper.eq_of_run_plain (h : p.IsProper) (ht : ∀ c ∈ t, isPlain c)
    (hr : p.run t = ⟨.code, d⟩) : p = ⟨.code, d⟩ := by
  induction t generalizing p with
  | nil => exact hr
  | cons c t ih =>
    have hs := ih (h.step c) (fun e he => ht e (by simp [he])) hr
    exact h.eq_of_step_plain (ht c (by simp)) hs

end Place

/-- Text that closes what it opens and nothing else; `commas` says whether commas may stand outside
of all brackets. -/
structure Closed (commas : Bool) (t : Text) : Prop where
  above : Place.start.Along (Place.Above 0 commas) t
  run : Place.start.run t = .start

theorem Balanced.closed {commas : Bool} {t : Text} (h : Balanced commas t) : Closed commas t :=
  ⟨(h.along 0).1, (h.along 0).2⟩

section

variable {commas : Bool} {s t r : Text}

theorem closed_iff : Closed commas t ↔
    Place.start.Along (Place.Above 0 commas) t ∧ Place.start.run t = .start :=
  ⟨fun h => ⟨h.above, h.run⟩, fun h => ⟨h.1, h.2⟩⟩

instance : Decidable (Closed commas t) := decidable_of_iff _ closed_iff.symm

/-- A closed text is closed at every depth. -/
theorem closed_iff_at (d : Int) : Closed commas t ↔
    (Place.mk .code d).Along (Place.Above d commas) t ∧ (Place.mk .code d).run t = ⟨.code, d⟩ := by
  have hs : Place.start.deeper d = ⟨.code, d⟩ := by simp [Place.start, Place.deeper]
  have ha : (Place.start.deeper d).Along (Place.Above (0 + d) commas) t ↔
      Place.start.Along (Place.Above 0 commas) t := Place.along_deeper
  rw [closed_iff, ← ha, ← Place.deeper_inj (n := d), ← Place.run_deeper, hs, Int.zero_add]

theorem closed_append_iff (hs : Closed commas s) : Closed commas (s ++ t) ↔ Closed commas t := by
  simp [closed_iff, Place.along_append, Place.run_append, hs.run, hs.above]

theorem closed_of_isBlank (h : t.isBlank) : Closed commas t :=
  (Balanced.of_plain fun _ hc => isPlain_of_isBlank (Text.forall_of_isBlank h _ hc)).closed

theorem Closed.of_append_blank (h : Closed commas (s ++ t)) (ht : t.isBlank) : Closed commas s := by
  have hp : ∀ c ∈ t, isPlain c := fun c hc => isPlain_of_isBlank (Text.forall_of_isBlank ht c hc)
  have hr := h.run
  rw [Place.run_append] at hr
  exact ⟨(Place.along_append.1 h.above).1, (Place.isProper_start.run s).eq_of_run_plain hp hr⟩

theorem Closed.trim (h : Closed commas t) : Closed commas t.trim := by
  obtain ⟨lead, hl, he⟩ := Text.exists_append_trimLeft t
  obtain ⟨trail, ht, hr⟩ := Text.exists_trimRight_append t.trimLeft
  rw [he, closed_append_iff (closed_of_isBlank hl), hr] at h
  exact h.of_append_blank ht

end

section Enclosed

variable {commas : Bool} {p : Place} {t inside : Text}

/-- What is enclosed is closed, and a closing bracket follows it. -/
theorem exists_of_enclosed (hp : 1 ≤ p.depth) (h : enclosed p t = some inside) :
    ∃ close rest, t = inside ++ close :: rest ∧ isCloser close ∧
      p.Along (Place.Above 1 true) inside ∧ p.run inside = ⟨.code, 1⟩ := by
  induction t generalizing p inside with
  | nil => cases h
  | cons c t ih =>
    rw [enclosed] at h
    split at h
    · rename_i hc
      obtain rfl : [] = inside := Option.some.inj h
      exact ⟨c, t, rfl, hc.2.1, trivial, by rw [Place.run_nil, ← hc.1, ← hc.2.2]⟩
    · rename_i hc
      obtain ⟨u, hu, rfl⟩ := Option.map_eq_some_iff.1 h
      -- the first bracket is still open behind `c`, which does not close it
      have hd : 1 ≤ (p.step c).depth := Place.le_depth_step hp hc
      obtain ⟨close, rest, rfl, hcl, ha, hr⟩ := ih hd hu
      refine ⟨close, rest, rfl, hcl, ⟨fun hm => ⟨fun hk => ?_, fun _ => ?_⟩, ha⟩, hr⟩
      · have : p.depth ≠ 1 := fun he => hc ⟨hm, hk, he⟩
        omega
      · exact (Int.lt_or_eq_of_le hp).imp_right fun he => ⟨rfl, he⟩

theorem exists_enclosed (hp : 1 ≤ p.depth) (h : p.run t = .start) :
    ∃ inside, enclosed p t = some inside := by
  induction t generalizing p with
  | nil =>
    rw [Place.run_nil] at h
    simp [h, Place.start] at hp
  | cons c t ih =>
    rw [enclosed]
    split
    · exact ⟨[], rfl⟩
    · rename_i hc
      obtain ⟨inside, hi⟩ := ih (Place.le_depth_step hp hc) h
      exact ⟨c :: inside, by rw [hi]; rfl⟩

theorem closed_of_enclosed (h : enclosed ⟨.code, 1⟩ t = some inside) :
    ∃ close rest, t = inside ++ close :: rest ∧ isCloser close ∧ Closed true inside := by
  obtain ⟨close, rest, ht, hc, ha, hr⟩ := exists_of_enclosed (Int.le_refl 1) h
  exact ⟨close, rest, ht, hc, (closed_iff_at 1).2 ⟨ha, hr⟩⟩

/-- Behind an opening bracket a closed text goes on to the bracket that closes it, and what is left
is closed. -/
theorem Closed.exists_group {o : CodePoint} (h : Closed commas (o :: t)) (ho : isOpener o) :
    ∃ inside close rest, t = inside ++ close :: rest ∧ isCloser close ∧ Closed true inside ∧
      Closed commas rest := by
  have hs : Place.start.step o = ⟨.code, 1⟩ := Place.step_opener ho
  have hr : (Place.mk .code 1).run t = .start := hs ▸ h.run
  have ha : (Place.mk .code 1).Along (Place.Above 0 commas) t := hs ▸ h.above.2
  obtain ⟨inside, hi⟩ := exists_enclosed (Int.le_refl 1) hr
  obtain ⟨close, rest, rfl, hc, hn⟩ := closed_of_enclosed hi
  have hb : (Place.mk .code 1).run (inside ++ [close]) = .start := by
    rw [Place.run_append, ((closed_iff_at 1).1 hn).2]
    exact Place.step_closer hc
  have he : inside ++ close :: rest = inside ++ [close] ++ rest := by simp
  rw [he, Place.run_append, hb] at hr
  rw [he, Place.along_append, hb] at ha
  exact ⟨inside, close, rest, rfl, hc, hn, ha.2, hr⟩

end Enclosed

section Pieces

variable {p : Place} {t : Text}

theorem isOuter_iff : p.isOuter ↔ p = .start := by
  obtain ⟨m, e⟩ := p
  simp [Place.isOuter, Place.start]

/-- Cutting divides a text at places outside of all brackets, so what is cut off is closed. -/
theorem closed_cutOuter (ha : p.Along (Place.Above 0 true) t) (hr : p.run t = .start) :
    ∃ q qs, cutOuter p t = q :: qs ∧
      (p.Along (Place.Above 0 false) q ∧ p.run q = .start) ∧ ∀ u ∈ qs, Closed false u := by
  induction t generalizing p with
  | nil => exact ⟨[], [], rfl, ⟨trivial, hr⟩, by simp⟩
  | cons c t ih =>
    rw [cutOuter]
    by_cases hc : c = .char ',' ∧ p.isOuter
    · obtain rfl := isOuter_iff.1 hc.2
      obtain rfl := hc.1
      obtain ⟨q, qs, he, hq, hqs⟩ := ih ha.2 hr
      rw [if_pos hc]
      refine ⟨[], _, rfl, ⟨trivial, rfl⟩, ?_⟩
      have hs : Place.start.step (.char ',') = .start := rfl
      rw [hs] at he hq
      rw [he, List.forall_mem_cons]
      exact ⟨⟨hq.1, hq.2⟩, hqs⟩
    · obtain ⟨q, qs, he, hq, hqs⟩ := ih ha.2 hr
      rw [if_neg hc, he]
      -- a comma that does not cut stands inside of brackets
      have hn : p.Above 0 false c := fun hm =>
        ⟨(ha.1 hm).1, fun hk => .inl (((ha.1 hm).2 hk).resolve_right fun hd =>
          hc ⟨hk, by simp [Place.isOuter, hm, ← hd.2]⟩)⟩
      exact ⟨c :: q, qs, rfl, ⟨⟨hn, hq.1⟩, hq.2⟩, hqs⟩

theorem mem_of_mem_dropBlankLast {q : Text} {ps : List Text} (h : q ∈ dropBlankLast ps) :
    q ∈ ps := by
  induction ps with
  | nil => exact h
  | cons p ps ih =>
    cases ps with
    | nil =>
      rw [dropBlankLast] at h
      split at h
      · cases h
      · exact h
    | cons r ps =>
      rcases List.mem_cons.1 h with rfl | h
      · exact .head _
      · exact .tail _ (ih h)

theorem Closed.of_mem_pieces (h : Closed true t) : ∀ q ∈ pieces t, Closed false q := by
  intro q hq
  obtain ⟨u, us, he, hu, hus⟩ := closed_cutOuter h.above h.run
  have hm : q ∈ u :: us := he ▸ mem_of_mem_dropBlankLast hq
  rcases List.mem_cons.1 hm with rfl | hm
  · exact ⟨hu.1, hu.2⟩
  · exact hus q hm

theorem closed_of_mem_arguments {q : Text} (h : q ∈ arguments t) : Closed false q := by
  unfold arguments at h
  split at h
  · rename_i inside hi
    obtain ⟨-, -, -, -, hn⟩ := closed_of_enclosed hi
    exact hn.of_mem_pieces q h
  · cases h

end Pieces

end RouteAtlas.Source
