import RouteAtlas.Proofs.Yaml.ScalarToken

/-!
# Keys, items, anchors and empty collections as tokens

What each mark adds to the tokens of a scan, and the block collections that it opens.
-/

namespace RouteAtlas.Yaml

open Scan

/-- A text that begins with a gap, or nothing. -/
def BeginsGap (r : Text) : Prop := ∀ c ∈ r.head?, (isTabOrSpace c || isBreak c) = true

/-- A token of a block collection at a column opens the collection if it is deeper than the one
around it; else it belongs to the one that is open. -/
inductive Opens (t : Token) (column : Nat) (ts : List Token) (i : Int) (is : List Int) :
    List Token → List Int → Prop
  | new (h : i < column) : Opens t column ts i is (t :: ts) (i :: is)
  | old (h : i = column) : Opens t column ts i is ts is

section Blocks

variable {pre r : Text} {ts ts' : List Token} {i : Int} {is is' : List Int} {allowed : Bool}
  {ks : List (Nat × KeyPlace)} {s : Scan}

theorem openBlock_behind {t : Token} (h : Opens t (columnOf pre) ts i is ts' is') :
    (behind pre r ts i is allowed ks).openBlock t =
      behind pre r ts' (columnOf pre) is' allowed ks := by
  cases h with
  | new h => simp [openBlock, deepen, behind, h, push]
  | old h => simp [openBlock, deepen, behind, h]

theorem gapAt_one {x : CodePoint} (hr : BeginsGap r) :
    (Cursor.behind pre (x :: r)).gapAt 1 = true := by
  cases r with
  | nil => rfl
  | cons y r => simpa [Cursor.gapAt, Cursor.endsAt] using hr y rfl

theorem atSeparator_behind_gap {x : CodePoint} (hr : BeginsGap r) :
    (Cursor.behind pre (x :: r)).atSeparator = false := by
  cases r with
  | nil => simp [Cursor.atSeparator]
  | cons y r =>
    have hd : y ≠ '-' := by
      rintro rfl
      exact absurd (hr _ rfl) (by decide)
    have hp : y ≠ '.' := by
      rintro rfl
      exact absurd (hr _ rfl) (by decide)
    simp [Cursor.atSeparator, hd, hp]

/-- A step that takes some characters and leaves the scan outside of flow collections. -/
theorem leads_take {w : Text} {i' : Int} {allowed' : Bool} {ks' : List (Nat × KeyPlace)}
    (ha : s.arrive = .ok (behind pre (w ++ r) ts i is allowed ks))
    (ht : (behind pre (w ++ r) ts i is allowed ks).take =
      .ok (behind (pre ++ w) r ts' i' is' allowed' ks'))
    (hw : w ≠ []) (he : ts'.head? ≠ some .streamEnd) :
    Leads s (behind (pre ++ w) r ts' i' is' allowed' ks') := by
  refine Leads.next ha ht he ?_
  have := List.length_pos_iff.2 hw
  simp only [behind, Cursor.rest_behind, List.length_append]
  omega

theorem leads_item (hk : Slack pre ks) (ho : Opens .blockSequence (columnOf pre) ts i is ts' is')
    (hr : BeginsGap r) (ha : s.arrive = .ok (behind pre (.char '-' :: r) ts i is true ks)) :
    Leads s (behind (pre ++ [.char '-']) r (.blockEntry :: ts') (columnOf pre) is' true []) := by
  have hd : isOrdinary (.char '-') := by decide
  refine leads_take ha ?_ (by simp) (by simp)
  have htoken : (behind pre (.char '-' :: r) ts i is true ks).take =
      (behind pre (.char '-' :: r) ts i is true ks).blockEntry := by
    simp [Scan.take, token, behind, atSeparator_behind_gap hr, gapAt_one hr]
  have hopen : (behind pre (.char '-' :: r) ts i is true ks).openBlock .blockSequence =
      behind pre (.char '-' :: r) ts' (columnOf pre) is' true ks := openBlock_behind ho
  rw [List.singleton_append, htoken, blockEntry]
  simp only [show (behind pre (.char '-' :: r) ts i is true ks).flow = 0 from rfl,
    show (behind pre (.char '-' :: r) ts i is true ks).keyAllowed = true from rfl, beq_self_eq_true,
    Bool.not_true, Bool.and_false, Bool.false_eq_true, if_false, if_true, hopen, dropKey_slack hk,
    bind, Except.bind, pure, Except.pure]
  simp [behind, pushAt, push, Cursor.next_behind hd]

theorem leads_keyMark (hk : Slack pre ks) (ho : Opens .blockMapping (columnOf pre) ts i is ts' is')
    (hr : BeginsGap r) (ha : s.arrive = .ok (behind pre (.char '?' :: r) ts i is true ks)) :
    Leads s (behind (pre ++ [.char '?']) r (.key :: ts') (columnOf pre) is' true []) := by
  have hd : isOrdinary (.char '?') := by decide
  refine leads_take ha ?_ (by simp) (by simp)
  have htoken : (behind pre (.char '?' :: r) ts i is true ks).take =
      (behind pre (.char '?' :: r) ts i is true ks).explicitKey := by
    simp [Scan.take, token, behind, gapAt_one hr]
  have hopen : (behind pre (.char '?' :: r) ts i is true ks).openBlock .blockMapping =
      behind pre (.char '?' :: r) ts' (columnOf pre) is' true ks := openBlock_behind ho
  rw [List.singleton_append, htoken, explicitKey]
  simp only [show (behind pre (.char '?' :: r) ts i is true ks).flow = 0 from rfl,
    show (behind pre (.char '?' :: r) ts i is true ks).keyAllowed = true from rfl, beq_self_eq_true,
    Bool.not_true, Bool.and_false, Bool.false_eq_true, if_false, if_true, hopen, dropKey_slack hk,
    bind, Except.bind, pure, Except.pure]
  simp [behind, pushAt, push, Cursor.next_behind hd]

theorem leads_valueMark (hi : i = columnOf pre) (hr : BeginsGap r)
    (ha : s.arrive = .ok (behind pre (.char ':' :: r) ts i is true [])) :
    Leads s (behind (pre ++ [.char ':']) r (.value :: ts) i is true []) := by
  have hd : isOrdinary (.char ':') := by decide
  refine leads_take ha ?_ (by simp) (by simp)
  have htoken : (behind pre (.char ':' :: r) ts i is true []).take =
      (behind pre (.char ':' :: r) ts i is true []).value := by
    simp [Scan.take, token, behind, gapAt_one hr]
  have hopen : (behind pre (.char ':' :: r) ts i is true []).openBlock .blockMapping =
      behind pre (.char ':' :: r) ts (columnOf pre) is true [] := openBlock_behind (.old hi)
  rw [List.singleton_append, htoken, value]
  simp only [show (behind pre (.char ':' :: r) ts i is true []).keyPlace? = none from rfl,
    show (behind pre (.char ':' :: r) ts i is true []).flow = 0 from rfl,
    show (behind pre (.char ':' :: r) ts i is true []).keyAllowed = true from rfl, beq_self_eq_true,
    Bool.not_true, Bool.and_false, Bool.false_eq_true, if_false, if_true, hopen,
    dropKey_slack (slack_nil pre), bind, Except.bind, pure, Except.pure]
  simp [behind, pushAt, push, Cursor.next_behind hd, hi]

section SimpleKeys

variable {u : Text} {name : Token}

def placeBehind (pre : Text) (ts : List Token) (required : Bool) : KeyPlace :=
  ⟨ts.length, required, pre.length, pre.countP isBreak, columnOf pre⟩

theorem saveKey_behind (pre r : Text) (ts : List Token) (i : Int) (is : List Int) :
    (behind pre r ts i is true []).saveKey =
      .ok (behind pre r ts i is true [(0, placeBehind pre ts (i == columnOf pre))]) := rfl

theorem take_key (h : ∀ n, ScalarSpells n u name) (hi : i ≤ columnOf pre) (hr : BeginsGap r) :
    (behind pre (u ++ .char ':' :: r) ts i is true []).take =
      .ok (behind (pre ++ u) (.char ':' :: r) (name :: ts) i is false
        [(0, placeBehind pre ts (i == columnOf pre))]) := by
  have hspells := h (columnOf pre + 1)
  cases hspells with
  | @plain u t ht hu =>
    have he := plainEnds_colon hr (i + 1)
    have hp := hu.plainScalar_behind (Nat.succ_pos _) (by omega) he
      (show i + 1 ≤ columnOf pre + 1 by omega)
    simp only [List.nil_append, List.append_nil] at hp
    rw [take_plain rfl rfl ht hu he.1, Scan.plain, saveKey_behind]
    simp only [bind, Except.bind, pure, Except.pure, behind, bne_self_eq_false, hp]
    rfl
  | @quoted double w t hw =>
    have hnq : ∀ c ∈ (.char ':' :: r : Text).head?, c ≠ .char '\'' := by
      rintro c ⟨⟩
      decide
    have hq := quotedScalar_behind hw pre hnq
    rw [take_quoted double rfl rfl, Scan.keyable, saveKey_behind]
    simp only [bind, Except.bind, pure, Except.pure, behind, hq, Except.map]
    rfl

theorem arrive_colon {ts' : List Token} {required : Bool} (hu : ∀ c ∈ u, isBreak c = false)
    (hlen : u.length ≤ 1024) (hi : i ≤ columnOf pre) :
    (behind (pre ++ u) (.char ':' :: r) ts' i is false [(0, placeBehind pre ts required)]).arrive =
      .ok (behind (pre ++ u) (.char ':' :: r) ts' i is false
        [(0, placeBehind pre ts required)]) := by
  have hb : BeginsToken (.char ':' :: r) :=
    beginsToken_cons (by decide) (by decide) (by decide) (by decide) r
  have hnext : (behind (pre ++ u) (.char ':' :: r) ts' i is false
      [(0, placeBehind pre ts required)]).toNextToken = behind (pre ++ u) (.char ':' :: r) ts' i is
        false [(0, placeBehind pre ts required)] := by
    simpa [Written.spaces] using toNextToken_spaces hb 0
  have hline : u.countP isBreak = 0 := List.countP_eq_zero.2 fun c hc => by simp [hu c hc]
  have hstale : (behind (pre ++ u) (.char ':' :: r) ts' i is false
      [(0, placeBehind pre ts required)]).isStale (placeBehind pre ts required) = false := by
    have hn : ¬ 1024 < u.length := by omega
    simp [isStale, behind, placeBehind, hline, hn]
  have hkeys : (behind (pre ++ u) (.char ':' :: r) ts' i is false
      [(0, placeBehind pre ts required)]).dropStaleKeys =
        .ok (behind (pre ++ u) (.char ':' :: r) ts' i is false
          [(0, placeBehind pre ts required)]) := by
    simp only [dropStaleKeys, show (behind (pre ++ u) (.char ':' :: r) ts' i is false
      [(0, placeBehind pre ts required)]).keys = [(0, placeBehind pre ts required)] from rfl,
      List.any_cons, List.any_nil, hstale, Bool.false_and, Bool.or_false, Bool.false_eq_true,
      if_false, List.filter_cons, List.filter_nil, Bool.not_false, if_true]
    rfl
  rw [arrive, hnext, hkeys]
  refine congrArg Except.ok (unwind_of_le ?_)
  have := columnOf_append hu pre
  rw [show (behind (pre ++ u) (.char ':' :: r) ts' i is false
    [(0, placeBehind pre ts required)]).cursor.column = columnOf (pre ++ u) from rfl]
  omega

theorem take_colon (hr : BeginsGap r) (required : Bool)
    (ho : Opens .blockMapping (columnOf pre) ts i is ts' is') :
    (behind (pre ++ u) (.char ':' :: r) (name :: ts) i is false
      [(0, placeBehind pre ts required)]).take =
        .ok (behind (pre ++ u ++ [.char ':']) r (.value :: name :: .key :: ts') (columnOf pre) is'
          false []) := by
  have hd : isOrdinary (.char ':') := by decide
  have htoken : (behind (pre ++ u) (.char ':' :: r) (name :: ts) i is false
      [(0, placeBehind pre ts required)]).take = (behind (pre ++ u) (.char ':' :: r) (name :: ts) i
        is false [(0, placeBehind pre ts required)]).value := by
    simp [Scan.take, token, behind, gapAt_one hr]
  have hnew : ts.length + 1 + 1 - ts.length = 2 := by omega
  rw [htoken, value, show (behind (pre ++ u) (.char ':' :: r) (name :: ts) i is false
    [(0, placeBehind pre ts required)]).keyPlace? = some (placeBehind pre ts required) from rfl]
  cases ho with
  | new h =>
    simp [insertAt, deepen, behind, placeBehind, h, pushAt, push, Cursor.next_behind hd, hnew]
  | old h => simp [insertAt, deepen, behind, placeBehind, h, pushAt, push, Cursor.next_behind hd]

theorem ScalarSpells.ne_streamEnd {n : Nat} (h : ScalarSpells n u name) : name ≠ .streamEnd := by
  cases h <;> simp

/-- A key on one line that is no longer than a key may be, with its colon. -/
theorem leads_simpleKey (h : ∀ n, ScalarSpells n u name) (hu : ∀ c ∈ u, isBreak c = false)
    (hlen : u.length ≤ 1024) (hi : i ≤ columnOf pre)
    (ho : Opens .blockMapping (columnOf pre) ts i is ts' is') (hr : BeginsGap r)
    (ha : s.arrive = .ok (behind pre (u ++ .char ':' :: r) ts i is true [])) :
    Leads s (behind (pre ++ u ++ [.char ':']) r (.value :: name :: .key :: ts') (columnOf pre) is'
      false []) := by
  have hname : (name :: ts).head? ≠ some .streamEnd := by simpa using (h 0).ne_streamEnd
  exact (leads_take ha (take_key h hi hr) (h 0).ne_nil hname).trans
    (leads_take (w := [.char ':']) (arrive_colon hu hlen hi) (take_colon hr _ ho) (by simp)
      (by simp))

end SimpleKeys

end Blocks

section Labels

variable {pre r name : Text} {ts : List Token} {i : Int} {is : List Int} {allowed : Bool}
  {ks : List (Nat × KeyPlace)} {s : Scan}

def labelMark (isAlias : Bool) : CodePoint := if isAlias then '*' else '&'

def labelToken (isAlias : Bool) (name : Text) : Token :=
  if isAlias then .alias name else .anchor name

theorem isOrdinary_of_isLabel {c : CodePoint} (h : isLabel c) : isOrdinary c := by
  simp only [isLabel, Bool.or_eq_true, beq_iff_eq] at h
  rcases h with ((h | h) | rfl) | rfl
  · simp only [CodePoint.isLatin, isOrdinary, within] at h ⊢
    simp at h ⊢
    omega
  · simp only [CodePoint.isAsciiDigit, isOrdinary, within] at h ⊢
    simp at h ⊢
    omega
  · decide
  · decide

theorem isGap_of_isLabel {c : CodePoint} (h : isLabel c) :
    (isTabOrSpace c || isBreak c) = false := by
  cases hc : isTabOrSpace c || isBreak c with
  | false => rfl
  | true =>
    simp only [isTabOrSpace, isBreak, Bool.or_eq_true, beq_iff_eq] at hc
    rcases hc with (rfl | rfl) | (((rfl | rfl) | rfl) | rfl) | rfl <;> exact absurd h (by decide)

theorem BeginsGap.isLabel (hr : BeginsGap r) : ∀ c ∈ r.head?, isLabel c = false := by
  intro c hc
  cases hl : Yaml.isLabel c with
  | false => rfl
  | true => simpa [isGap_of_isLabel hl] using hr c hc

theorem anchorName_behind {x : CodePoint} (hx : isOrdinary x) (hn : ∀ c ∈ name, isLabel c)
    (hne : name ≠ []) (hr : BeginsGap r) :
    anchorName (.behind pre (x :: (name ++ r))) = .ok (name, .behind (pre ++ x :: name) r) := by
  have hs := Cursor.span_behind (pre ++ [x]) (fun c hc => isOrdinary_of_isLabel (hn c hc)) hn
    hr.isLabel
  have he : (Cursor.behind (pre ++ [x] ++ name) r).endsAt 0 (fun x => isTabOrSpace x ||
      (Text.ofString "?:,]\x7d%@\x60").contains x) = true := by
    cases r with
    | nil => rfl
    | cons y r =>
      have hy : (isTabOrSpace y || isBreak y) = true := hr y rfl
      have hy : isTabOrSpace y = true ∨ isBreak y = true := by simpa using hy
      rcases hy with hy | hy <;> simp [Cursor.endsAt, hy]
  rw [anchorName]
  simp only [Cursor.next_behind hx, hs, he]
  simp [hne]

theorem leads_label (isAlias : Bool) (hn : ∀ c ∈ name, isLabel c) (hne : name ≠ [])
    (hk : Slack pre ks) (hi : i ≠ columnOf pre) (hr : BeginsGap r)
    (ha : s.arrive = .ok (behind pre (labelMark isAlias :: name ++ r) ts i is allowed ks)) :
    ∃ ks', Slack pre ks' ∧ Leads s (behind (pre ++ labelMark isAlias :: name) r
      (labelToken isAlias name :: ts) i is false ks') := by
  obtain ⟨ks', hk', hsave⟩ : ∃ ks', Slack pre ks' ∧
      (behind pre (labelMark isAlias :: name ++ r) ts i is allowed ks).saveKey =
        .ok (behind pre (labelMark isAlias :: name ++ r) ts i is allowed ks') :=
    saveKey_slack hk hi
  have hx : isOrdinary (labelMark isAlias) := by cases isAlias <;> decide
  have htoken : (behind pre (labelMark isAlias :: name ++ r) ts i is allowed ks).take =
      (behind pre (labelMark isAlias :: name ++ r) ts i is allowed ks).keyable fun c =>
        (anchorName c).map fun p => (labelToken isAlias p.1, p.2) := by
    cases isAlias <;> simp [Scan.take, token, behind, labelMark, labelToken]
  refine ⟨ks', hk', leads_take ha ?_ (by simp) (by cases isAlias <;> simp [labelToken])⟩
  rw [htoken, keyable, hsave]
  have hname : anchorName (.behind pre (labelMark isAlias :: (name ++ r))) =
      .ok (name, .behind (pre ++ labelMark isAlias :: name) r) := anchorName_behind hx hn hne hr
  simp only [bind, Except.bind, pure, Except.pure, behind, List.cons_append, hname, Except.map]
  rfl

end Labels

section Empty

variable {pre r : Text} {ts : List Token} {i : Int} {is : List Int} {allowed : Bool}
  {ks : List (Nat × KeyPlace)} {s : Scan}

def emptyText (isMap : Bool) : Text := if isMap then "\x7b\x7d" else "[]"

def emptyTokens (isMap : Bool) : List Token :=
  if isMap then [.flowMapping, .flowMappingEnd] else [.flowSequence, .flowSequenceEnd]

theorem toNextToken_of_beginsToken (hs : s.cursor = .behind pre r) (hr : BeginsToken r) :
    s.toNextToken = s := by
  have hm : s.cursor.has 0 (· == .char '\uFEFF') = false := by
    rw [hs]
    exact noMark fun c hc => (hr c hc).1
  have hsp : s.cursor.skipSpaces = s.cursor := by
    rw [hs]
    simpa [Written.spaces] using Cursor.skipSpaces_behind pre 0 fun c hc => (hr c hc).2.1
  have hc : s.cursor.has 0 (· == .char '#') = false := by
    rw [hs]
    cases r with
    | nil => rfl
    | cons x r => simpa using (hr x rfl).2.2.1
  have hb : s.cursor.has 0 isBreak = false := by
    rw [hs]
    cases r with
    | nil => rfl
    | cons x r => exact (hr x rfl).2.2.2
  rw [toNextToken, hm, Bool.and_false, if_neg Bool.false_ne_true, skipGaps]
  simp [hsp, hc, hb]

/-- Behind the first bracket of a flow collection the next token is arrived at. -/
theorem arrive_flow (hs : s.cursor = .behind pre r) (hr : BeginsToken r) (hf : s.flow = 1)
    (hk : ∀ p ∈ s.keys, p.2.required = false) :
    s.arrive = .ok { s with keys := s.keys.filter fun p => !s.isStale p.2 } := by
  rw [arrive, toNextToken_of_beginsToken hs hr, dropStaleKeys_slack hk]
  exact congrArg Except.ok (by simp [unwind, hf])

/-- The first bracket of a flow collection is read, and a key may be saved for it. -/
theorem flowStart_behind {x : CodePoint} (hx : isOrdinary x) (hk : Slack pre ks)
    (hi : i ≠ columnOf pre) (t : Token) : ∃ ks', Slack pre ks' ∧
      (behind pre (x :: r) ts i is allowed ks).flowStart t =
        .ok { behind (pre ++ [x]) r (t :: ts) i is true ks' with flow := 1 } := by
  obtain ⟨ks', hk', hsave⟩ : ∃ ks', Slack pre ks' ∧
      (behind pre (x :: r) ts i is allowed ks).saveKey =
        .ok (behind pre (x :: r) ts i is allowed ks') := saveKey_slack hk hi
  refine ⟨ks', hk', ?_⟩
  rw [flowStart, hsave]
  simp [bind, Except.bind, pure, Except.pure, behind, pushAt, push, Cursor.next_behind hx]

theorem flowEnd_behind {y : CodePoint} (hy : isOrdinary y) (hk : ∀ p ∈ ks, p.1 = 0) (t : Token) :
    Scan.flowEnd { behind pre (y :: r) ts i is allowed ks with flow := 1 } t =
      .ok (behind (pre ++ [y]) r (t :: ts) i is false ks) := by
  have hlookup : ks.lookup 1 = none := by
    rw [List.lookup_eq_none_iff]
    intro p hp
    simp [hk p hp]
  have hfilter : ks.filter (fun p => p.1 != 1) = ks := by
    rw [List.filter_eq_self]
    intro p hp
    simp [hk p hp]
  rw [flowEnd, dropKey]
  simp [keyPlace?, hlookup, bind, Except.bind, pure, Except.pure, behind, pushAt, push,
    Cursor.next_behind hy, hfilter]

/-- The brackets of an empty collection, each read as a token. -/
theorem exists_brackets (isMap : Bool) : ∃ x y t t', isOrdinary x ∧ isOrdinary y ∧
    (y ≠ ' ' ∧ y ≠ '#' ∧ isBreak y = false) ∧ t ≠ .streamEnd ∧ t' ≠ .streamEnd ∧
      emptyText isMap = [x, y] ∧ emptyTokens isMap = [t, t'] ∧
        (∀ s : Scan, s.token x = s.flowStart t) ∧ ∀ s : Scan, s.token y = s.flowEnd t' := by
  cases isMap with
  | false =>
    exact ⟨'[', ']', .flowSequence, .flowSequenceEnd, by decide, by decide, by decide, by simp,
      by simp, rfl, rfl, fun s => by simp [token], fun s => by simp [token]⟩
  | true =>
    exact ⟨'\x7b', '\x7d', .flowMapping, .flowMappingEnd, by decide, by decide, by decide,
      by simp, by simp, rfl, rfl, fun s => by simp [token], fun s => by simp [token]⟩

theorem leads_empty (isMap : Bool) (hk : Slack pre ks) (hi : i ≠ columnOf pre)
    (ha : s.arrive = .ok (behind pre (emptyText isMap ++ r) ts i is allowed ks)) :
    ∃ ks', Slack pre ks' ∧ Leads s (behind (pre ++ emptyText isMap) r
      ((emptyTokens isMap).reverse ++ ts) i is false ks') := by
  obtain ⟨x, y, t, t', hx, hy, hstop, ht, ht', htext, htokens, hstart, hend⟩ :=
    exists_brackets isMap
  rw [htext] at ha ⊢
  rw [htokens]
  obtain ⟨ks', hk', hopen⟩ : ∃ ks', Slack pre ks' ∧
      (behind pre (x :: y :: r) ts i is allowed ks).flowStart t =
        .ok { behind (pre ++ [x]) (y :: r) (t :: ts) i is true ks' with flow := 1 } :=
    flowStart_behind hx hk hi t
  have htake : (behind pre ([x, y] ++ r) ts i is allowed ks).take =
      .ok { behind (pre ++ [x]) (y :: r) (t :: ts) i is true ks' with flow := 1 } :=
    (hstart _).trans hopen
  have hfirst : Leads s { behind (pre ++ [x]) (y :: r) (t :: ts) i is true ks' with flow := 1 } :=
    Leads.next ha htake (by simpa [behind] using ht) (by simp [behind])
  have harrive := arrive_flow
    (s := { behind (pre ++ [x]) (y :: r) (t :: ts) i is true ks' with flow := 1 }) rfl
    (beginsToken_cons hy hstop.1 hstop.2.1 hstop.2.2 r) rfl fun p hp => (hk' p hp).2.1
  obtain ⟨ks'', hk'', harrive⟩ : ∃ ks'', Slack pre ks'' ∧
      Scan.arrive { behind (pre ++ [x]) (y :: r) (t :: ts) i is true ks' with flow := 1 } =
        .ok { behind (pre ++ [x]) (y :: r) (t :: ts) i is true ks'' with flow := 1 } :=
    ⟨_, hk'.filter _, harrive⟩
  have htake' : Scan.take { behind (pre ++ [x]) (y :: r) (t :: ts) i is true ks'' with flow := 1 } =
      .ok (behind (pre ++ [x, y]) r (t' :: t :: ts) i is false ks'') := by
    rw [show pre ++ [x, y] = pre ++ [x] ++ [y] by simp]
    exact (hend _).trans (flowEnd_behind hy (fun p hp => (hk'' p hp).1) t')
  exact ⟨ks'', hk'', hfirst.trans
    (Leads.next harrive htake' (by simpa [behind] using ht') (by simp [behind]))⟩

end Empty

end RouteAtlas.Yaml
