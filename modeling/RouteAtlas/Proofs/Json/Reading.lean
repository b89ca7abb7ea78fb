import Mathlib
import RouteAtlas.Json.Reader
import RouteAtlas.Proofs.Json.Data
import RouteAtlas.Proofs.Number.Decimal
import RouteAtlas.Proofs.Pairs
import RouteAtlas.Proofs.Text.Case
import RouteAtlas.Proofs.Text.Search

/-!
# JSON text read back

The text of plain data, one item a line, is read as the data if it is not nested deeper than the
reader may go.
-/

namespace RouteAtlas.Json

section Strings

theorem hexValue?_hexDigit (n : Nat) : hexValue? (hexDigit n) = some (n % 16) := by
  have h : ∀ d < 16, hexValue? (.char (Nat.digitChar d)) = some d := by decide
  exact h _ (Nat.mod_lt n (by omega))

theorem unicodeEscape?_escape16 {n : Nat} (h : n < 0xD800) (t : Text) :
    unicodeEscape? ((escape16 n).drop 2 ++ t) = some (CodePoint.ofNat n, t) := by
  have hv : 4096 * (n / 4096 % 16) + 256 * (n / 256 % 16) + 16 * (n / 16 % 16) + n % 16 = n := by
    omega
  have hx : hex4? ((escape16 n).drop 2 ++ t) = some (n, t) := by
    simp [escape16, hex4?, hexValue?_hexDigit, hv]
  have hg : ¬ (0xD800 ≤ n ∧ n < 0xDC00) := by omega
  simp [unicodeEscape?, hx, guard, hg]

variable {c : CodePoint} {fuel : Nat} {t : Text}

theorem readString_plain (hq : c ≠ '"') (hb : c ≠ '\\') (hn : 0x20 ≤ c.toNat) :
    readString (fuel + 1) (c :: t) = (readString fuel t).map fun p => (c :: p.1, p.2) := by
  have hn' : ¬ c.toNat < 0x20 := by omega
  simp [readString, hq, hb, hn']

theorem readString_simple {e x : CodePoint} (hu : e ≠ 'u') (he : simpleEscape? e = some x) :
    readString (fuel + 1) (.char '\\' :: e :: t) =
      (readString fuel t).map fun p => (x :: p.1, p.2) := by
  simp [readString, hu, he]

theorem readString_escape16 (h : c.toNat < 0xD800) :
    readString (fuel + 1) (escape16 c.toNat ++ t) =
      (readString fuel t).map fun p => (c :: p.1, p.2) := by
  have hu := unicodeEscape?_escape16 h t
  rw [CodePoint.ofNat_toNat] at hu
  have he : escape16 c.toNat ++ t =
      .char '\\' :: .char 'u' :: ((escape16 c.toNat).drop 2 ++ t) := rfl
  rw [he, readString]
  simp [hu]

/-- How a character is written: by an escape of one letter, by its code, or as it is. -/
inductive Escapes (c : CodePoint) : Text → Prop
  | letter {e : CodePoint} (hu : e ≠ 'u') (he : simpleEscape? e = some c) :
      Escapes c [.char '\\', e]
  | code (h : c.toNat < 0x20) : Escapes c (escape16 c.toNat)
  | plain (hq : c ≠ '"') (hb : c ≠ '\\') (hn : 0x20 ≤ c.toNat) : Escapes c [c]

theorem escapes_escaped (c : CodePoint) : Escapes c (escaped false c) := by
  unfold escaped
  have hcode {e : CodePoint} {n : Nat} (hc : c.toNat = n)
      (he : simpleEscape? e = some (CodePoint.ofNat n)) : simpleEscape? e = some c := by
    rwa [← hc, CodePoint.ofNat_toNat] at he
  refine iteInduction (motive := Escapes c) (fun h => ?_) fun hq => ?_
  · subst h
    exact .letter (by decide) (by decide)
  refine iteInduction (motive := Escapes c) (fun h => ?_) fun hb => ?_
  · subst h
    exact .letter (by decide) (by decide)
  -- the two line ends and the tab
  iterate 3
    refine iteInduction (motive := Escapes c) (fun h => ?_) fun _ => ?_
    · subst h
      exact .letter (by decide) (by decide)
  refine iteInduction (motive := Escapes c) (fun h => ?_) fun _ => ?_
  · exact .letter (e := 'f') (by decide) (hcode h (by decide))
  refine iteInduction (motive := Escapes c) (fun h => ?_) fun _ => ?_
  · exact .letter (e := 'b') (by decide) (hcode h (by decide))
  refine iteInduction (motive := Escapes c) .code fun hn => ?_
  exact .plain hq hb (by omega)

theorem readString_escaped (c : CodePoint) (fuel : Nat) (t : Text) :
    readString (fuel + 1) (escaped false c ++ t) =
      (readString fuel t).map fun p => (c :: p.1, p.2) := by
  have h := escapes_escaped c
  generalize escaped false c = u at h ⊢
  cases h with
  | letter hu he => exact readString_simple hu he
  | code h => exact readString_escape16 (by omega)
  | plain hq hb hn => exact readString_plain hq hb hn

theorem Escapes.ne_nil {c : CodePoint} {u : Text} (h : Escapes c u) : u ≠ [] := by
  cases h <;> simp [escape16]

theorem length_le_length_flatMap_escaped (t : Text) :
    t.length ≤ (t.flatMap (escaped false)).length := by
  induction t with
  | nil => simp
  | cons c t ih =>
    have := List.length_pos_iff.2 (escapes_escaped c).ne_nil
    rw [List.flatMap_cons, List.length_append, List.length_cons]
    omega

theorem length_quoted (t : Text) : t.length + 2 ≤ (quoted false t).length := by
  have := length_le_length_flatMap_escaped t
  simp only [quoted, List.length_append]
  have h : (Text.ofString "\"").length = 1 := rfl
  omega

/-- What stands between the quotes is read back, with enough steps for its length. -/
theorem readString_flatMap_escaped (h : t.length < fuel) (rest : Text) :
    readString fuel (t.flatMap (escaped false) ++ .char '"' :: rest) = .ok (t, rest) := by
  induction t generalizing fuel with
  | nil =>
    cases fuel with
    | zero => simp at h
    | succ fuel => simp [readString]
  | cons c t ih =>
    cases fuel with
    | zero => simp at h
    | succ fuel =>
      have ht : t.length < fuel := by simpa using h
      rw [List.flatMap_cons, List.append_assoc, readString_escaped, ih ht]
      rfl

theorem quoted_append (t rest : Text) :
    quoted false t ++ rest = .char '"' :: (t.flatMap (escaped false) ++ .char '"' :: rest) := by
  simp [quoted, Text.ofString]

end Strings

section Numbers

variable {rest : Text}

/-- What may come behind a value: the comma before the next one, or the end of a line. -/
def Ends (rest : Text) : Prop := ∀ c ∈ rest.head?, c = ',' ∨ c = '\n'

theorem digitsAhead_append {ds : List Char} (hd : ∀ c ∈ ds, c.isDigit) (hr : Ends rest) :
    digitsAhead (ds.map .char ++ rest) = (ds, rest) := by
  have hs : ∀ c ∈ ds.map CodePoint.char, c.isAsciiDigit := by
    simpa [CodePoint.isAsciiDigit_char] using hd
  have ht : ∀ c ∈ rest.head?, c.isAsciiDigit = false := by
    intro c hc
    rcases hr c hc with rfl | rfl <;> rfl
  rw [digitsAhead, Text.takeWhile_append_of_stop hs ht, Text.dropWhile_append_of_stop hs ht]
  exact Prod.ext (by simp [List.filterMap_map]) rfl

theorem fraction_of_ends (hr : Ends rest) : fraction rest = ([], rest) := by
  unfold fraction
  split
  · rename_i r
    have := hr (.char '.') (by simp)
    simp at this
  · rfl

theorem exponent?_of_ends (hr : Ends rest) : exponent? rest = none := by
  cases rest with
  | nil => rfl
  | cons c r =>
    have hc : ¬ (c = 'e' ∨ c = 'E') := by
      rcases hr c (by simp) with rfl | rfl <;> simp
    simp [exponent?, hc]

theorem readMagnitude_ofNat {n : Nat} (h : Decimal.tooLong n = false) (negative : Bool)
    (hr : Ends rest) :
    readMagnitude true negative (Text.ofNat n ++ rest) =
      .ok (.int (if negative then -n else n), rest) := by
  by_cases hn : n = 0
  · subst hn
    have ht : Text.ofNat 0 ++ rest = .char '0' :: rest := rfl
    rw [ht, readMagnitude]
    simp [fraction_of_ends hr, exponent?_of_ends hr, Decimal.maxDigits, Decimal.ofDigits,
      Decimal.digitValue]
  · obtain ⟨c, cs, hc, -, h0⟩ := Decimal.exists_toDigits_cons hn
    have hl := Nat.not_lt.2 (Decimal.length_toDigits_le h)
    have hd : digitsAhead (Text.ofNat n ++ rest) = (Nat.toDigits 10 n, rest) :=
      digitsAhead_append (fun _ => Decimal.isDigit_of_mem_toDigits) hr
    rw [readMagnitude]
    · simp [hd, fraction_of_ends hr, exponent?_of_ends hr, Nat.toDigits_ne_nil, hl,
        Decimal.ofDigits_toDigits]
    · intro r he
      simp [Text.ofNat, hc] at he
      exact h0 he.1

/-- Digits and the sign begin no word, string, list or object. -/
def isNumeral (c : Char) : Bool := c.isDigit || c == '-'

theorem readValue_numeral {c : Char} (hc : isNumeral c) (bounded : Bool) (room fuel : Nat)
    (t : Text) :
    readValue bounded room (fuel + 1) (.char c :: t) = readNumber bounded (.char c :: t) := by
  have hne (d : Char) (hd : isNumeral d = false) : c ≠ d := by
    rintro rfl
    simp [hc] at hd
  have hw : word? (.char c :: t) = none := by
    simp [word?, Text.after, Text.ofString, (hne 'n' rfl).symm, (hne 't' rfl).symm,
      (hne 'f' rfl).symm, (hne 'N' rfl).symm, (hne 'I' rfl).symm]
  have h1 := hne '"' rfl
  have h2 := hne '[' rfl
  have h3 := hne '{' rfl
  rw [readValue.eq_def]
  split <;> simp_all

theorem readValue_ofInt {n : Int} (h : Decimal.tooLong n.natAbs = false) (room fuel : Nat)
    (hr : Ends rest) :
    readValue true room (fuel + 1) (Text.ofInt n ++ rest) = .ok (.int n, rest) := by
  cases n with
  | ofNat n =>
    have hm := readMagnitude_ofNat h false hr
    obtain ⟨c, t, hc, hd⟩ := Decimal.exists_ofInt_cons (.ofNat n)
    have hs : c ≠ '-' := by
      rintro rfl
      have hm : '-' ∈ Nat.toDigits 10 n := by
        have h' : CodePoint.char '-' ∈ (Nat.toDigits 10 n).map CodePoint.char := by
          have : (Nat.toDigits 10 n).map CodePoint.char = .char '-' :: t := hc
          simp [this]
        simpa using h'
      simpa using Decimal.isDigit_of_mem_toDigits hm
    have hm' : readNumber true (.char c :: (t ++ rest)) = .ok (.int n, rest) := by
      rw [readNumber]
      · rw [← List.cons_append, ← hc]
        exact hm
      · intro r he
        exact hs (by simpa using (List.cons.inj he).1)
    rw [hc, List.cons_append, readValue_numeral (by simpa [isNumeral] using hd), hm']
    rfl
  | negSucc n =>
    have hm := readMagnitude_ofNat h true hr
    have hi : Text.after "Infinity" (Text.ofNat (n + 1) ++ rest) = none := by
      obtain ⟨c, cs, hc, hd, -⟩ := Decimal.exists_toDigits_cons (show n + 1 ≠ 0 by omega)
      have hI : 'I' ≠ c := by
        rintro rfl
        simp at hd
      simp [Text.after, Text.ofString, Text.ofNat, hc, hI]
    have ht : Text.ofInt (.negSucc n) ++ rest = .char '-' :: (Text.ofNat (n + 1) ++ rest) := rfl
    rw [ht, readValue_numeral rfl, readNumber, hi]
    exact hm

end Numbers

section Values

theorem skipSpace_newline (level : Nat) (t : Text) :
    skipSpace (Layout.indented.newline level ++ t) = skipSpace t := by
  refine List.dropWhile_append_of_pos fun c hc => ?_
  simp only [Layout.newline, Layout.indented, List.mem_cons, List.mem_replicate] at hc
  rcases hc with rfl | ⟨-, rfl⟩ <;> rfl

theorem skipSpace_of_head {t : Text} (h : ∀ c ∈ t.head?, isSpace c = false) : skipSpace t = t := by
  cases t with
  | nil => rfl
  | cons c t => simp [skipSpace, h c (by simp)]

/-- The first character of a value, which is no space and closes nothing. -/
theorem exists_render_cons (level : Nat) {v : Json} (hv : v.IsData) :
    ∃ c t, render .indented level v = c :: t ∧ isSpace c = false ∧ c ≠ ']' := by
  cases v with
  | null => exact ⟨_, _, rfl, rfl, by decide⟩
  | bool b => cases b <;> exact ⟨_, _, rfl, rfl, by decide⟩
  | int n =>
    obtain ⟨c, t, hc, hd⟩ := Decimal.exists_ofInt_cons n
    have hne (d : Char) (h : d.isDigit = false) (h' : d ≠ '-') : c ≠ d := by
      rintro rfl
      simp [h, h'] at hd
    refine ⟨.char c, t, hc, ?_, by simpa using hne ']' rfl (by decide)⟩
    simp [isSpace, hne ' ' rfl (by decide), hne '\t' rfl (by decide), hne '\n' rfl (by decide),
      hne '\r' rfl (by decide)]
  | float x => exact hv.elim
  | str t => exact ⟨_, _, rfl, rfl, by decide⟩
  | list vs => cases vs <;> exact ⟨_, _, rfl, rfl, by decide⟩
  | obj fs => cases fs <;> exact ⟨_, _, rfl, rfl, by decide⟩
  | shared _ v => exact exists_render_cons level (v := v) hv

theorem ends_newline (level : Nat) (t : Text) : Ends (Layout.indented.newline level ++ t) := by
  intro c hc
  obtain rfl : .char '\n' = c := by simpa [Layout.newline, Layout.indented] using hc
  exact .inr rfl

theorem ends_renderItems (level : Nat) (vs : List Json) (t : Text) (ht : Ends t) :
    Ends (renderItems .indented level vs ++ t) := by
  cases vs with
  | nil => exact ht
  | cons v vs =>
    intro c hc
    obtain rfl : .char ',' = c := by
      simpa [renderItems, Layout.indented, Text.ofString] using hc
    exact .inl rfl

theorem ends_renderFields (level : Nat) (fs : List (Text × Json)) (t : Text) (ht : Ends t) :
    Ends (renderFields .indented level fs ++ t) := by
  cases fs with
  | nil => exact ht
  | cons f fs =>
    intro c hc
    obtain rfl : .char ',' = c := by
      simpa [renderFields, Layout.indented, Text.ofString] using hc
    exact .inl rfl

theorem skipSpace_render (level : Nat) {v : Json} (hv : v.IsData) (t : Text) :
    skipSpace (render .indented level v ++ t) = render .indented level v ++ t := by
  obtain ⟨c, r, hc, hs, -⟩ := exists_render_cons level hv
  exact skipSpace_of_head (by simp [hc, hs])

section Steps

variable {bounded : Bool} {room fuel : Nat} {t rest : Text}

theorem readValue_quoted (bounded : Bool) (room : Nat) {k : Text} (h : k.length < fuel)
    (rest : Text) :
    readValue bounded room (fuel + 1) (quoted false k ++ rest) = .ok (.str k, rest) := by
  rw [quoted_append, readValue, readString_flatMap_escaped h]
  rfl

theorem readValue_noItems (hroom : room ≠ 0) :
    readValue bounded room (fuel + 1) (.char '[' :: .char ']' :: rest) = .ok (.list [], rest) := by
  rw [readValue, if_neg hroom, skipSpace_of_head (by simp [isSpace])]
  rfl

theorem readValue_noFields (hroom : room ≠ 0) :
    readValue bounded room (fuel + 1) (.char '{' :: .char '}' :: rest) = .ok (.obj [], rest) := by
  rw [readValue, if_neg hroom, skipSpace_of_head (by simp [isSpace])]
  rfl

theorem readValue_items (hroom : room ≠ 0) (h : ∀ c ∈ (skipSpace t).head?, c ≠ ']') :
    readValue bounded room (fuel + 1) (.char '[' :: t) =
      (readItems bounded (room - 1) fuel (skipSpace t)).map fun p => (.list p.1, p.2) := by
  rw [readValue, if_neg hroom]
  split
  · rename_i r he
    exact absurd rfl (h (.char ']') (by simp [he]))
  · rfl

theorem readValue_fields (hroom : room ≠ 0) (h : ∀ c ∈ (skipSpace t).head?, c ≠ '\x7d') :
    readValue bounded room (fuel + 1) (.char '{' :: t) =
      (readFields bounded (room - 1) fuel (skipSpace t)).map
        fun p => (.obj (Pairs.ofList p.1), p.2) := by
  rw [readValue, if_neg hroom]
  split
  · rename_i r he
    exact absurd rfl (h (.char '}') (by simp [he]))
  · rfl

theorem readItems_last {v : Json} (h : readValue bounded room fuel t = .ok (v, rest)) {r : Text}
    (hr : skipSpace rest = .char ']' :: r) :
    readItems bounded room (fuel + 1) t = .ok ([v], r) := by
  rw [readItems, h]
  simp [bind, Except.bind, hr, pure, Except.pure]

theorem readItems_more {v : Json} (h : readValue bounded room fuel t = .ok (v, rest)) {r r' : Text}
    {vs : List Json} (hr : skipSpace rest = .char ',' :: r)
    (hs : readItems bounded room fuel (skipSpace r) = .ok (vs, r')) :
    readItems bounded room (fuel + 1) t = .ok (v :: vs, r') := by
  rw [readItems, h]
  simp [bind, Except.bind, hr, hs, pure, Except.pure]

/-- A key, its colon and its value are read; what comes next decides whether more fields follow. -/
theorem readFields_last {k r₁ r₂ r₃ r : Text} {v : Json}
    (hk : readString fuel t = .ok (k, r₁)) (hc : skipSpace r₁ = .char ':' :: r₂)
    (h : readValue bounded room fuel (skipSpace r₂) = .ok (v, r₃))
    (hr : skipSpace r₃ = .char '}' :: r) :
    readFields bounded room (fuel + 1) (.char '"' :: t) = .ok ([(k, v)], r) := by
  rw [readFields, hk]
  simp [bind, Except.bind, hc, h, hr, pure, Except.pure]

theorem readFields_more {k r₁ r₂ r₃ r r' : Text} {v : Json} {fs : List (Text × Json)}
    (hk : readString fuel t = .ok (k, r₁)) (hc : skipSpace r₁ = .char ':' :: r₂)
    (h : readValue bounded room fuel (skipSpace r₂) = .ok (v, r₃))
    (hr : skipSpace r₃ = .char ',' :: r)
    (hs : readFields bounded room fuel (skipSpace r) = .ok (fs, r')) :
    readFields bounded room (fuel + 1) (.char '"' :: t) = .ok ((k, v) :: fs, r') := by
  rw [readFields, hk]
  simp [bind, Except.bind, hc, h, hr, hs, pure, Except.pure]

end Steps

theorem skipSpace_quoted (k t : Text) : skipSpace (quoted false k ++ t) = quoted false k ++ t :=
  skipSpace_of_head (by simp [quoted, Text.ofString, isSpace])

section Layout

variable (level outer : Nat) (k : Text) (v : Json) (vs : List Json) (fs : List (Text × Json))
  (rest : Text)

/-- Behind the bracket: the first item on a new line, the others, and the end. -/
theorem render_items_append :
    render .indented level (.list (v :: vs)) ++ rest =
      .char '[' :: (Layout.indented.newline (level + 1) ++ (render .indented (level + 1) v ++
        (renderItems .indented (level + 1) vs ++ (Layout.indented.newline level ++
          .char ']' :: rest)))) := by
  simp [render, Text.ofString]

theorem renderItems_cons :
    renderItems .indented level (v :: vs) =
      .char ',' :: (Layout.indented.newline level ++ (render .indented level v ++
        renderItems .indented level vs)) := by
  simp [renderItems, Layout.indented, Text.ofString]

theorem render_fields_append :
    render .indented level (.obj ((k, v) :: fs)) ++ rest =
      .char '{' :: (Layout.indented.newline (level + 1) ++ (quoted false k ++ (.char ':' ::
        .char ' ' :: (render .indented (level + 1) v ++ (renderFields .indented (level + 1) fs ++
          (Layout.indented.newline level ++ .char '}' :: rest)))))) := by
  simp [render, Layout.indented, Text.ofString]

theorem renderFields_cons :
    renderFields .indented level ((k, v) :: fs) =
      .char ',' :: (Layout.indented.newline level ++ (quoted false k ++ (.char ':' :: .char ' ' ::
        (render .indented level v ++ renderFields .indented level fs)))) := by
  simp [renderFields, Layout.indented, Text.ofString]

end Layout

mutual

/-- The text of plain data is read as the data without marks. -/
theorem readValue_render (level room fuel : Nat) {v : Json} (rest : Text) (hv : v.IsData)
    (hd : v.depth ≤ room) (hf : (render .indented level v).length < fuel) (hr : Ends rest) :
    readValue true room fuel (render .indented level v ++ rest) = .ok (v.unmarked, rest) := by
  obtain ⟨fuel, rfl⟩ : ∃ n, fuel = n + 1 := ⟨fuel - 1, by omega⟩
  cases v with
  | null => rfl
  | bool b => cases b <;> rfl
  | int n => exact readValue_ofInt hv room fuel hr
  | float x => exact hv.elim
  | str t =>
    have hq : render .indented level (.str t) = quoted false t := by
      rw [render]
      rfl
    have hl := length_quoted t
    rw [hq] at hf ⊢
    exact readValue_quoted true room (show t.length < fuel by omega) rest
  | list vs =>
    simp only [depth] at hd
    have hroom : room ≠ 0 := by omega
    cases vs with
    | nil =>
      have ht : render .indented level (.list []) ++ rest = .char '[' :: .char ']' :: rest := by
        simp [render, Text.ofString]
      rw [ht]
      exact readValue_noItems hroom
    | cons v vs =>
      have hv : ItemsAreData (v :: vs) := hv
      have hl := congrArg List.length (render_items_append level v vs [])
      simp only [List.length_append, List.length_cons, List.length_nil] at hl
      have hi := readItems_render (level + 1) level (room - 1) fuel rest hv (by omega) (by omega)
      obtain ⟨c, r, hc, -, hne⟩ := exists_render_cons (level + 1) hv.1
      rw [render_items_append, readValue_items hroom, skipSpace_newline,
        skipSpace_render _ hv.1, hi]
      · rfl
      · rw [skipSpace_newline, skipSpace_render _ hv.1, hc]
        simpa using hne
  | obj fs =>
    simp only [depth] at hd
    have hroom : room ≠ 0 := by omega
    cases fs with
    | nil =>
      have ht : render .indented level (.obj []) ++ rest = .char '{' :: .char '}' :: rest := by
        simp [render, Text.ofString]
      rw [ht]
      exact readValue_noFields hroom
    | cons f fs =>
      cases f with | mk k v =>
      have hk : (((k, v) :: fs).map Prod.fst).Nodup := hv.1
      have hv : FieldsAreData ((k, v) :: fs) := hv.2
      have hl := congrArg List.length (render_fields_append level k v fs [])
      simp only [List.length_append, List.length_cons, List.length_nil] at hl
      have hi := readFields_render (level + 1) level (room - 1) fuel rest hv (by omega) (by omega)
      have hu : Pairs.ofList (unmarkedFields ((k, v) :: fs)) = unmarkedFields ((k, v) :: fs) :=
        Pairs.ofList_of_nodup (by rwa [keys_unmarkedFields])
      rw [render_fields_append, readValue_fields hroom, skipSpace_newline, skipSpace_quoted, hi]
      · simp only [Except.map, hu]
        rfl
      · rw [skipSpace_newline, skipSpace_quoted, quoted_append]
        simp
  | shared _ v => exact readValue_render level room (fuel + 1) (v := v) rest hv hd hf hr
termination_by sizeOf v

theorem readItems_render (level outer room fuel : Nat) {v : Json} {vs : List Json} (rest : Text)
    (hv : ItemsAreData (v :: vs)) (hd : itemsDepth (v :: vs) ≤ room)
    (hf : (render .indented level v).length + (renderItems .indented level vs).length + 1 < fuel) :
    readItems true room fuel (render .indented level v ++ (renderItems .indented level vs ++
      (Layout.indented.newline outer ++ .char ']' :: rest))) =
        .ok (unmarkedItems (v :: vs), rest) := by
  obtain ⟨fuel, rfl⟩ : ∃ n, fuel = n + 1 := ⟨fuel - 1, by omega⟩
  have hd' : v.depth ≤ room ∧ itemsDepth vs ≤ room := by
    simp only [itemsDepth] at hd
    omega
  have hr := ends_renderItems level vs _ (ends_newline outer (.char ']' :: rest))
  have hv' := readValue_render level room fuel _ hv.1 hd'.1 (by omega) hr
  cases vs with
  | nil => exact readItems_last hv' (skipSpace_newline outer _)
  | cons w ws =>
    have hl := congrArg List.length (renderItems_cons level w ws)
    simp only [List.length_cons, List.length_append] at hl
    have hi := readItems_render level outer room fuel rest hv.2 hd'.2 (by omega)
    rw [renderItems_cons] at hv' ⊢
    simp only [List.append_assoc, List.cons_append] at hv' ⊢
    refine readItems_more hv' (skipSpace_of_head (by simp [isSpace])) ?_
    rw [skipSpace_newline, skipSpace_render _ hv.2.1]
    exact hi
termination_by sizeOf v + sizeOf vs + 1

theorem readFields_render (level outer room fuel : Nat) {k : Text} {v : Json}
    {fs : List (Text × Json)} (rest : Text) (hv : FieldsAreData ((k, v) :: fs))
    (hd : fieldsDepth ((k, v) :: fs) ≤ room)
    (hf : (quoted false k).length + (render .indented level v).length +
      (renderFields .indented level fs).length + 1 < fuel) :
    readFields true room fuel (quoted false k ++ (.char ':' :: .char ' ' ::
      (render .indented level v ++ (renderFields .indented level fs ++
        (Layout.indented.newline outer ++ .char '}' :: rest))))) =
          .ok (unmarkedFields ((k, v) :: fs), rest) := by
  obtain ⟨fuel, rfl⟩ : ∃ n, fuel = n + 1 := ⟨fuel - 1, by omega⟩
  have hd' : v.depth ≤ room ∧ fieldsDepth fs ≤ room := by
    simp only [fieldsDepth] at hd
    omega
  have hk := length_quoted k
  have hr := ends_renderFields level fs _ (ends_newline outer (.char '}' :: rest))
  have hv' := readValue_render level room fuel _ hv.2.1 hd'.1 (by omega) hr
  have hs := readString_flatMap_escaped (show k.length < fuel by omega) (.char ':' :: .char ' ' ::
      (render .indented level v ++ (renderFields .indented level fs ++
        (Layout.indented.newline outer ++ .char '}' :: rest))))
  rw [← skipSpace_render level hv.2.1] at hv'
  rw [quoted_append]
  cases fs with
  | nil =>
    exact readFields_last hs (skipSpace_of_head (by simp [isSpace])) hv' (skipSpace_newline outer _)
  | cons g gs =>
    cases g with | mk l w =>
    have hl := congrArg List.length (renderFields_cons level l w gs)
    simp only [List.length_cons, List.length_append] at hl
    have hi := readFields_render level outer room fuel rest hv.2.2 hd'.2 (by omega)
    rw [renderFields_cons] at hv' hs ⊢
    simp only [List.append_assoc, List.cons_append] at hv' hs ⊢
    refine readFields_more hs (skipSpace_of_head (by simp [isSpace])) hv'
      (skipSpace_of_head (by simp [isSpace])) ?_
    rw [skipSpace_newline, skipSpace_quoted]
    exact hi
termination_by sizeOf v + sizeOf fs + 1

end

/-- The whole text of plain data, with its final line feed. -/
theorem ofText_toText {v : Json} (hv : v.IsData) (hd : v.depth ≤ maxDepth) :
    ofText true (v.toText .indented ++ "\n") = .ok v.unmarked := by
  have hr : Ends (Text.ofString "\n") := by
    intro c hc
    obtain rfl : .char '\n' = c := by simpa [Text.ofString] using hc
    exact .inr rfl
  have hl : (render .indented 0 v).length < 2 * (render .indented 0 v ++ "\n").length + 2 := by
    rw [List.length_append]
    omega
  rw [ofText, toText, skipSpace_render 0 hv, readValue_render 0 _ _ _ hv hd hl hr]
  rfl

end Values

section Returns

theorem Escapes.return_not_mem {c : CodePoint} {u : Text} (h : Escapes c u) : .char '\r' ∉ u := by
  cases h with
  | letter hu he =>
    have hr : simpleEscape? '\r' = none := by decide
    simp only [List.mem_cons, List.not_mem_nil, or_false]
    rintro (h | rfl)
    · exact absurd h (by decide)
    · rw [hr] at he
      cases he
  | code h =>
    have hd (n : Nat) : .char '\r' ≠ hexDigit n := by
      have hd : ∀ d < 16, CodePoint.char '\r' ≠ .char (Nat.digitChar d) := by decide
      exact hd _ (Nat.mod_lt n (by omega))
    simp [escape16, hd]
  | plain hq hb hn =>
    rw [List.mem_singleton]
    rintro rfl
    exact absurd hn (by decide)

theorem return_not_mem_quoted (t : Text) : .char '\r' ∉ quoted false t := by
  simp [quoted, Text.ofString, (escapes_escaped _).return_not_mem]

theorem return_not_mem_newline (level : Nat) : .char '\r' ∉ Layout.indented.newline level := by
  simp [Layout.newline, Layout.indented]

theorem return_not_mem_ofInt (n : Int) : .char '\r' ∉ Text.ofInt n := by
  have h (n : Nat) : CodePoint.char '\r' ∉ Text.ofNat n := by
    intro hm
    have hd : '\r' ∈ Nat.toDigits 10 n := by simpa [Text.ofNat] using hm
    simpa using Decimal.isDigit_of_mem_toDigits hd
  cases n with
  | ofNat n => exact h n
  | negSucc n => simpa [Text.ofInt] using h (n + 1)

mutual

theorem return_not_mem_render (level : Nat) {v : Json} (hv : v.IsData) :
    .char '\r' ∉ render .indented level v := by
  cases v with
  | null => simp [render, Text.ofString]
  | bool b => cases b <;> simp [render, Text.ofString]
  | int n => exact return_not_mem_ofInt n
  | float x => exact hv.elim
  | str t => exact return_not_mem_quoted t
  | list vs =>
    cases vs with
    | nil => simp [render, Text.ofString]
    | cons v vs =>
      simp [render, Text.ofString, return_not_mem_newline, return_not_mem_render (level + 1) hv.1,
        return_not_mem_renderItems (level + 1) hv.2]
  | obj fs =>
    cases fs with
    | nil => simp [render, Text.ofString]
    | cons f fs =>
      cases f with | mk k v =>
      have hv : FieldsAreData ((k, v) :: fs) := hv.2
      rw [← List.append_nil (render _ _ _), render_fields_append]
      simp [return_not_mem_newline, return_not_mem_quoted,
        return_not_mem_render (level + 1) hv.2.1, return_not_mem_renderFields (level + 1) hv.2.2]
  | shared _ v => exact return_not_mem_render level (v := v) hv

theorem return_not_mem_renderItems (level : Nat) {vs : List Json} (hv : ItemsAreData vs) :
    .char '\r' ∉ renderItems .indented level vs := by
  cases vs with
  | nil => simp [renderItems]
  | cons v vs =>
    simp [renderItems_cons, return_not_mem_newline, return_not_mem_render level hv.1,
      return_not_mem_renderItems level hv.2]

theorem return_not_mem_renderFields (level : Nat) {fs : List (Text × Json)}
    (hv : FieldsAreData fs) : .char '\r' ∉ renderFields .indented level fs := by
  cases fs with
  | nil => simp [renderFields]
  | cons f fs =>
    cases f with | mk k v =>
    simp [renderFields_cons, return_not_mem_newline, return_not_mem_quoted,
      return_not_mem_render level hv.2.1, return_not_mem_renderFields level hv.2.2]

end

end Returns

end RouteAtlas.Json
