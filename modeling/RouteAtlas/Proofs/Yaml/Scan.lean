import Mathlib.Logic.Relation
import Mathlib.Order.Nat
import RouteAtlas.Proofs.Yaml.Plain
import RouteAtlas.Yaml.Token.Scan

/-!
# Steps of a scan

A step first arrives at the next token and then takes it. Scans that arrive at one place go on in
the same way.
-/

namespace RouteAtlas.Yaml

def BeginsToken (r : Text) : Prop :=
  ∀ c ∈ r.head?, isOrdinary c ∧ c ≠ ' ' ∧ c ≠ '#' ∧ isBreak c = false

theorem BeginsToken.beginsWord {r : Text} (h : BeginsToken r) : BeginsWord r := by
  intro c hc
  obtain ⟨ho, hs, -, hb⟩ := h c hc
  simp [isTabOrSpace_eq_isSpace ho, hs, hb]

theorem beginsToken_nil : BeginsToken [] := by
  rintro c ⟨⟩

theorem beginsToken_cons {c : CodePoint} (ho : isOrdinary c) (hs : c ≠ ' ') (hc : c ≠ '#')
    (hb : isBreak c = false) (r : Text) : BeginsToken (c :: r) := by
  rintro d ⟨⟩
  exact ⟨ho, hs, hc, hb⟩

namespace Scan

/-- A scan outside of flow collections, behind a text and with another text ahead. -/
def behind (pre rest : Text) (ts : List Token) (i : Int) (is : List Int) (allowed : Bool)
    (ks : List (Nat × KeyPlace)) : Scan :=
  ⟨.behind pre rest, ts, ts.length, 0, i, is, allowed, ks⟩

/-- Gaps, stale keys and the ends of block collections before the next token. -/
def arrive (s : Scan) : Except LoadError Scan := do
  let s ← s.toNextToken.dropStaleKeys
  return s.unwind s.cursor.column

def take (s : Scan) : Except LoadError Scan :=
  match s.cursor.rest with
  | [] => do
    let s ← s.closeAll
    return s.push .streamEnd
  | x :: _ => s.token x

theorem step_eq (s : Scan) : s.step = s.arrive.bind take := by
  rw [step, arrive]
  cases s.toNextToken.dropStaleKeys with
  | error e => rfl
  | ok s => rfl

/-- A step that is not the last one; it takes characters. -/
def Next (s x : Scan) : Prop :=
  ∃ a, s.arrive = .ok a ∧ a.take = .ok x ∧ x.tokens.head? ≠ some .streamEnd ∧
    x.cursor.rest.length < a.cursor.rest.length

/-- Steps from a scan arrive where another one does. -/
def Leads (s s' : Scan) : Prop := ∃ x, Relation.ReflTransGen Next s x ∧ x.arrive = s'.arrive

namespace Leads

variable {s s' s'' a x : Scan}

theorem of_arrive_eq (h : s.arrive = s'.arrive) : Leads s s' := ⟨s, .refl, h⟩

theorem next (h : s.arrive = .ok a) (ht : a.take = .ok x)
    (he : x.tokens.head? ≠ some .streamEnd)
    (hl : x.cursor.rest.length < a.cursor.rest.length) : Leads s x :=
  ⟨x, .single ⟨a, h, ht, he, hl⟩, rfl⟩

theorem trans (h : Leads s s') (h' : Leads s' s'') : Leads s s'' := by
  obtain ⟨x, hx, hxa⟩ := h
  obtain ⟨y, hy, hya⟩ := h'
  rcases Relation.ReflTransGen.cases_head hy with rfl | ⟨z, hz, hzy⟩
  · exact ⟨x, hx, hxa.trans hya⟩
  · obtain ⟨a, ha, ht, he, hl⟩ := hz
    exact ⟨y, (hx.tail ⟨a, hxa.trans ha, ht, he, hl⟩).trans hzy, hya⟩

end Leads

section Rest

theorem rest_next_le (c : Cursor) : c.next.rest.length ≤ c.rest.length := by
  unfold Cursor.next
  split
  · simp
  · rename_i x r h
    split
    · simp [h]
    · split <;> simp [h]

theorem rest_advance_le (n : Nat) (c : Cursor) : (c.advance n).rest.length ≤ c.rest.length := by
  induction n generalizing c with
  | zero => rfl
  | succ n ih => exact (ih c.next).trans (rest_next_le c)

theorem rest_skipWhile_le (c : Cursor) (p : CodePoint → Bool) :
    (c.skipWhile p).rest.length ≤ c.rest.length := rest_advance_le _ c

theorem rest_lineBreak_le (c : Cursor) : c.lineBreak.2.rest.length ≤ c.rest.length := by
  unfold Cursor.lineBreak
  split
  · exact (rest_next_le _).trans (rest_next_le c)
  · split
    · exact rest_next_le c
    · split
      · exact rest_next_le c
      · rfl
  · rfl

theorem rest_skipGaps_le (fuel : Nat) (s : Scan) :
    (skipGaps fuel s).cursor.rest.length ≤ s.cursor.rest.length := by
  induction fuel generalizing s with
  | zero => rfl
  | succ fuel ih =>
    have hs : s.cursor.skipSpaces.rest.length ≤ s.cursor.rest.length := rest_skipWhile_le _ _
    have hc : (if s.cursor.skipSpaces.has 0 (· == .char '#') then
        s.cursor.skipSpaces.skipWhile (!isBreak ·) else s.cursor.skipSpaces).rest.length ≤
          s.cursor.rest.length := by
      split
      · exact (rest_skipWhile_le _ _).trans hs
      · exact hs
    rw [skipGaps]
    generalize (if s.cursor.skipSpaces.has 0 (· == .char '#') then
      s.cursor.skipSpaces.skipWhile (!isBreak ·) else s.cursor.skipSpaces) = c at hc ⊢
    split
    · exact (ih _).trans ((rest_lineBreak_le c).trans hc)
    · exact hc

theorem rest_toNextToken_le (s : Scan) :
    s.toNextToken.cursor.rest.length ≤ s.cursor.rest.length := by
  unfold toNextToken
  refine (rest_skipGaps_le _ _).trans ?_
  split
  · exact rest_next_le _
  · rfl

@[simp] theorem cursor_unwindFrom (column : Int) (is : List Int) (s : Scan) :
    (unwindFrom column is s).cursor = s.cursor := by
  induction is generalizing s with
  | nil => rfl
  | cons i is ih =>
    rw [unwindFrom]
    split
    · rw [ih]
      rfl
    · rfl

@[simp] theorem cursor_unwind (s : Scan) (column : Int) : (s.unwind column).cursor = s.cursor := by
  unfold unwind
  split
  · exact cursor_unwindFrom column _ s
  · rfl

theorem rest_arrive_le {s a : Scan} (h : s.arrive = .ok a) :
    a.cursor.rest.length ≤ s.cursor.rest.length := by
  unfold arrive dropStaleKeys at h
  split at h
  · cases h
  · cases h
    simpa using rest_toNextToken_le s

end Rest

theorem run_succ {s a x : Scan} (ha : s.arrive = .ok a) (ht : a.take = .ok x) (fuel : Nat) :
    run (fuel + 1) s =
      if x.tokens.head? = some .streamEnd then x.tokens else run fuel x := by
  have hs : s.step = .ok x := by rw [step_eq, ha, Except.bind, ht]
  rw [run, hs]
  dsimp only
  split
  · rename_i h
    simp [h]
  · rename_i h
    rw [if_neg]
    intro he
    obtain ⟨r, hr⟩ := List.head?_eq_some_iff.1 he
    exact h r hr

/-- A scan that leads to the end of the text has the tokens that end there. -/
theorem run_of_leads {s s' a x : Scan} (h : Leads s s') (ha : s'.arrive = .ok a)
    (ht : a.take = .ok x) (hx : x.tokens.head? = some .streamEnd) {fuel : Nat}
    (hf : s.cursor.rest.length < fuel) : run fuel s = x.tokens := by
  obtain ⟨y, hy, hya⟩ := h
  induction hy using Relation.ReflTransGen.head_induction_on generalizing fuel with
  | refl =>
    obtain ⟨fuel, rfl⟩ : ∃ k, fuel = k + 1 := ⟨fuel - 1, by omega⟩
    rw [run_succ (hya.trans ha) ht, if_pos hx]
  | head h _ ih =>
    obtain ⟨b, hb, htb, he, hl⟩ := h
    obtain ⟨fuel, rfl⟩ : ∃ k, fuel = k + 1 := ⟨fuel - 1, by omega⟩
    have := rest_arrive_le hb
    rw [run_succ hb htb, if_neg he]
    exact ih (by omega)

section Arrivals

variable {pre r : Text} {ts : List Token} {i : Int} {is : List Int} {allowed : Bool}
  {ks : List (Nat × KeyPlace)}

/-- The beginning of a text that a byte order mark could stand at. -/
theorem noMark {w : Text} (hw : ∀ c ∈ w.head?, isOrdinary c) :
    (Cursor.behind pre w).has 0 (· == .char '\uFEFF') = false := by
  cases w with
  | nil => rfl
  | cons x w =>
    have hx : x ≠ '\uFEFF' := ne_of_isOrdinary (hw x rfl) (by decide)
    simpa using hx

theorem skipGaps_spaces (hr : BeginsToken r) (n fuel : Nat) :
    skipGaps (fuel + 1) (behind pre (Written.spaces n ++ r) ts i is allowed ks) =
      behind (pre ++ Written.spaces n) r ts i is allowed ks := by
  have hs := Cursor.skipSpaces_behind pre n fun c hc => (hr c hc).2.1
  have hc : (Cursor.behind (pre ++ Written.spaces n) r).has 0 (· == .char '#') = false := by
    cases r with
    | nil => rfl
    | cons x r => simpa using (hr x rfl).2.2.1
  have hb : (Cursor.behind (pre ++ Written.spaces n) r).has 0 isBreak = false := by
    cases r with
    | nil => rfl
    | cons x r => exact (hr x rfl).2.2.2
  rw [skipGaps]
  simp [behind, hs, hc, hb]

theorem toNextToken_spaces (hr : BeginsToken r) (n : Nat) :
    (behind pre (Written.spaces n ++ r) ts i is allowed ks).toNextToken =
      behind (pre ++ Written.spaces n) r ts i is allowed ks := by
  have hm : (behind pre (Written.spaces n ++ r) ts i is allowed ks).cursor.has 0
      (· == .char '\uFEFF') = false := by
    refine noMark fun c hc => ?_
    cases n with
    | zero => exact (hr c hc).1
    | succ n =>
      obtain rfl : CodePoint.char ' ' = c := Option.some.inj hc
      decide
  rw [toNextToken, hm, Bool.and_false]
  exact skipGaps_spaces hr n _

theorem toNextToken_newLine (hr : BeginsToken r) (n : Nat) :
    (behind pre (Written.newLine n ++ r) ts i is allowed ks).toNextToken =
      behind (pre ++ Written.newLine n) r ts i is true ks := by
  have ho : isOrdinary (.char '\n') ∧ isBreak (.char '\n') := by decide
  have hm : (behind pre (Written.newLine n ++ r) ts i is allowed ks).cursor.has 0
      (· == .char '\uFEFF') = false := by
    refine noMark ?_
    rintro c ⟨⟩
    exact ho.1
  have hs : (Cursor.behind pre (Written.newLine n ++ r)).skipSpaces =
      .behind pre (Written.newLine n ++ r) := by
    have hn : ∀ c ∈ (Written.newLine n ++ r).head?, c ≠ .char ' ' := by
      rintro c ⟨⟩
      decide
    simpa [Written.spaces] using Cursor.skipSpaces_behind pre 0 hn
  have hg : skipGaps ((Written.spaces n).length + r.length + 1)
      (behind (pre ++ [.char '\n']) (Written.spaces n ++ r) ts i is true ks) =
        behind (pre ++ [.char '\n'] ++ Written.spaces n) r ts i is true ks :=
    skipGaps_spaces hr n _
  rw [toNextToken, hm, Bool.and_false, if_neg Bool.false_ne_true, skipGaps]
  simp only [behind, List.append_assoc, List.cons_append, List.nil_append] at hg ⊢
  simp only [Written.newLine, List.cons_append] at hs ⊢
  simp [hs, ho, Cursor.lineBreak_behind ho.1 ho.2 (by decide), hg]

/-- Places of keys outside of flow collections that need not become keys, none of them ahead. -/
def Slack (pre : Text) (ks : List (Nat × KeyPlace)) : Prop :=
  ∀ p ∈ ks, p.1 = 0 ∧ p.2.required = false ∧ p.2.line ≤ pre.countP isBreak

theorem slack_nil (pre : Text) : Slack pre [] := by
  rintro p ⟨⟩

theorem Slack.append (h : Slack pre ks) (w : Text) : Slack (pre ++ w) ks := by
  intro p hp
  obtain ⟨h0, hq, hl⟩ := h p hp
  exact ⟨h0, hq, hl.trans (by simp)⟩

theorem Slack.filter (h : Slack pre ks) (q : Nat × KeyPlace → Bool) : Slack pre (ks.filter q) :=
  fun p hp => h p (List.mem_filter.1 hp).1

theorem dropStaleKeys_slack {s : Scan} (h : ∀ p ∈ s.keys, p.2.required = false) :
    s.dropStaleKeys = .ok { s with keys := s.keys.filter fun p => !s.isStale p.2 } := by
  rw [dropStaleKeys, if_neg]
  simpa using fun n k hk _ => h (n, k) hk

theorem unwind_of_le {column : Int} (h : i ≤ column) :
    (behind pre r ts i is allowed ks).unwind column = behind pre r ts i is allowed ks := by
  cases is with
  | nil => rfl
  | cons j is =>
    have hn : ¬ column < i := by omega
    simp [unwind, behind, unwindFrom, hn]

/-- The end of a block collection at a column outside of it. -/
theorem unwind_close {j column : Int} (h : column < i) :
    (behind pre r ts i (j :: is) allowed ks).unwind column =
      (behind pre r (.blockEnd :: ts) j is allowed ks).unwind column := by
  simp [unwind, behind, unwindFrom, h, push]

theorem arrive_spaces (hr : BeginsToken r) (hk : Slack pre ks) (n : Nat)
    (hi : i ≤ columnOf pre + n) : ∃ ks', Slack pre ks' ∧ (ks = [] → ks' = []) ∧
      (behind pre (Written.spaces n ++ r) ts i is allowed ks).arrive =
        .ok (behind (pre ++ Written.spaces n) r ts i is allowed ks') := by
  have hc : columnOf (pre ++ Written.spaces n) = columnOf pre + n := by
    rw [columnOf_append isBreak_spaces]
    simp [Written.spaces]
  refine ⟨ks.filter fun p => !(behind (pre ++ Written.spaces n) r ts i is allowed ks).isStale p.2,
    hk.filter _, fun h => by simp [h], ?_⟩
  rw [arrive, toNextToken_spaces hr, dropStaleKeys_slack fun p hp => (hk p hp).2.1]
  exact congrArg Except.ok (unwind_of_le (by simp [behind, hc, hi]))

/-- On a new line all keys are stale, and a key may stand there. -/
theorem arrive_new {w : Text} (hk : Slack pre ks)
    (hw : pre.countP isBreak < w.countP isBreak)
    (hs : (behind w r ts i is true ks).toNextToken = behind w r ts i is true ks) :
    (behind w r ts i is true ks).arrive =
      .ok ((behind w r ts i is true []).unwind (columnOf w)) := by
  have hf : (ks.filter fun p => !(behind w r ts i is true ks).isStale p.2) = [] := by
    rw [List.filter_eq_nil_iff]
    intro p hp
    have hl := (hk p hp).2.2
    have hne : p.2.line ≠ w.countP isBreak := by omega
    simp [isStale, behind, hne]
  rw [arrive, hs, dropStaleKeys_slack fun p hp => (hk p hp).2.1]
  simp only [bind, Except.bind, pure, Except.pure]
  have : (behind w r ts i is true ks).keys = ks := rfl
  rw [this, hf]
  rfl

theorem arrive_behind_newLine (hr : BeginsToken r) (hk : Slack pre ks) (n : Nat) :
    (behind (pre ++ Written.newLine n) r ts i is true ks).arrive =
      .ok ((behind (pre ++ Written.newLine n) r ts i is true []).unwind n) := by
  have hw : pre.countP isBreak < (pre ++ Written.newLine n).countP isBreak := by
    have hb : isBreak (.char '\n') := by decide
    simp [Written.newLine, hb]
  have h0 : (behind (pre ++ Written.newLine n) r ts i is true ks).toNextToken =
      behind (pre ++ Written.newLine n) r ts i is true ks := by
    simpa [Written.spaces] using toNextToken_spaces hr 0
  simpa only [columnOf_newLine] using arrive_new hk hw h0

theorem arrive_newLine (hr : BeginsToken r) (hk : Slack pre ks) (n : Nat) :
    (behind pre (Written.newLine n ++ r) ts i is allowed ks).arrive =
      .ok ((behind (pre ++ Written.newLine n) r ts i is true []).unwind n) := by
  have h0 : (behind (pre ++ Written.newLine n) r ts i is true ks).toNextToken =
      behind (pre ++ Written.newLine n) r ts i is true ks := by
    simpa [Written.spaces] using toNextToken_spaces hr 0
  rw [← arrive_behind_newLine hr hk, arrive, toNextToken_newLine hr, arrive, h0]

end Arrivals

section Keys

variable {pre r : Text} {ts : List Token} {i : Int} {is : List Int} {allowed : Bool}
  {ks : List (Nat × KeyPlace)}

theorem dropKey_slack (hk : Slack pre ks) :
    (behind pre r ts i is allowed ks).dropKey = .ok (behind pre r ts i is allowed []) := by
  have hl : ((behind pre r ts i is allowed ks).keyPlace?.any KeyPlace.required) = false := by
    cases hp : (behind pre r ts i is allowed ks).keyPlace? with
    | none => rfl
    | some p =>
      obtain ⟨l, l', hl, -⟩ := List.lookup_eq_some_iff.1 hp
      have hl : ks = l ++ (0, p) :: l' := hl
      exact (hk (0, p) (by simp [hl])).2.1
  have hf : (ks.filter fun p => p.1 != 0) = [] := by
    rw [List.filter_eq_nil_iff]
    intro p hp
    simp [(hk p hp).1]
  rw [dropKey, hl]
  simp [behind, hf]

/-- A token that is not at the indentation need not become a key. -/
theorem saveKey_slack (hk : Slack pre ks) (hi : i ≠ columnOf pre) : ∃ ks', Slack pre ks' ∧
    (behind pre r ts i is allowed ks).saveKey = .ok (behind pre r ts i is allowed ks') := by
  cases allowed with
  | false => exact ⟨ks, hk, rfl⟩
  | true =>
    have hq : ((behind pre r ts i is true ks).flow == 0 &&
        (behind pre r ts i is true ks).indent ==
          ((behind pre r ts i is true ks).cursor.column : Int)) = false := by
      simpa [behind] using hi
    refine ⟨[(0, ⟨ts.length, false, pre.length, pre.countP isBreak, columnOf pre⟩)], ?_, ?_⟩
    · simp [Slack]
    · rw [saveKey]
      simp only [hq]
      rw [dropKey_slack hk]
      rfl

end Keys

end Scan

end RouteAtlas.Yaml
