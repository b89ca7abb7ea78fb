import RouteAtlas.Proofs.Document.Operations
import RouteAtlas.Proofs.Handler.Validators

/-!
# What an analysis needs and what it gives

The source of a handler can be told if it is declared, or if following its wrappers comes to an end.
Nothing else is asked for.
-/

namespace RouteAtlas

namespace Handler

def sourceText (h : Handler) : Text := h.base.ownSource.getD []

def Told (h : Handler) : Prop := h.base.ownSource.isSome ∨ h.base.loops = false

instance (h : Handler) : Decidable h.Told := inferInstanceAs (Decidable (_ ∨ _))

def analysisOf (g : Grammar) (h : Handler) (chain : List Handler) : Analysis :=
  ⟨Source.requestFields g h.sourceText, Source.responseFields g h.sourceText,
    Validator.detect (chain.map sourceText)⟩

variable {g : Grammar} {h : Handler} {chain : List Handler}

theorem told_absent : absent.Told := .inr rfl

theorem source_of_told (hh : h.Told) : h.source = .ok h.sourceText := by
  unfold source sourceText
  cases hs : h.base.ownSource with
  | some s => rfl
  | none =>
    have hl : h.base.loops = false := hh.resolve_left (by simp [hs])
    simp [hl]

theorem source_of_not_told (hh : ¬ h.Told) : h.source = .error .wrapperLoop := by
  obtain ⟨hs, hl⟩ := not_or.1 hh
  have hn : h.base.ownSource = none := by simpa using hs
  have hb : h.base.loops = true := by simpa using hl
  simp [source, hn, hb]

theorem sources_of_told (hc : ∀ k ∈ chain, k.Told) :
    chain.mapM source = .ok (chain.map sourceText) := by
  induction chain with
  | nil => rfl
  | cons k ks ih =>
    rw [List.mapM_cons, source_of_told (hc k (by simp)), ih fun l hl => hc l (by simp [hl])]
    rfl

theorem sources_of_not_told (hc : ∃ k ∈ chain, ¬ k.Told) :
    chain.mapM source = .error .wrapperLoop := by
  induction chain with
  | nil => simp at hc
  | cons k ks ih =>
    rw [List.mapM_cons]
    by_cases hk : k.Told
    · have hks : ∃ l ∈ ks, ¬ l.Told := by simpa [hk] using hc
      rw [source_of_told hk, ih hks]
      rfl
    · rw [source_of_not_told hk]
      rfl

theorem analyze_of_told (hc : ∀ k ∈ h :: chain, k.Told) :
    h.analyze g chain = .ok (analysisOf g h chain) := by
  rw [analyze, source_of_told (hc h (by simp)), sources_of_told fun k hk => hc k (by simp [hk])]
  rfl

theorem analyze_of_not_told (hc : ∃ k ∈ h :: chain, ¬ k.Told) :
    h.analyze g chain = .error .wrapperLoop := by
  rw [analyze]
  by_cases hh : h.Told
  · have hk : ∃ k ∈ chain, ¬ k.Told := by simpa [hh] using hc
    rw [source_of_told hh, sources_of_not_told hk]
    rfl
  · rw [source_of_not_told hh]
    rfl

theorem analyze_eq_ok {a : Analysis} (ha : h.analyze g chain = .ok a) :
    analysisOf g h chain = a := by
  by_cases hc : ∀ k ∈ h :: chain, k.Told
  · rw [analyze_of_told hc] at ha
    exact Except.ok.inj ha
  · have hk : ∃ k ∈ h :: chain, ¬ k.Told := by simpa only [not_forall, exists_prop] using hc
    rw [analyze_of_not_told hk] at ha
    cases ha

end Handler

namespace Source

variable {g : Grammar}

/-- No text, no fields, even where the grammar asks for empty names. -/
theorem requestFields_nil : requestFields g [] = [] := rfl

theorem responseFields_nil : responseFields g [] = [] := rfl

/-- The response fields are the keys that the entries of the response literal have. -/
theorem mem_responseFields {source n : Text} :
    n ∈ responseFields g source ↔ ∃ literal, responseLiteral? g source = some literal ∧
      ∃ entry ∈ pieces (literal.trim.drop 1).dropLast, literalKey? entry = some n := by
  unfold responseFields
  cases responseLiteral? g source with
  | none => simp
  | some literal => simp [literalKeys]

end Source

namespace Handler

/-- The parts of an analysis are distinct, and no request field is the wrapper in any case. The
response fields are all keys of the response literal, the wrapper not excepted. -/
theorem analyze_distinct {g : Grammar} {h : Handler} {chain : List Handler} {a : Analysis}
    (ha : h.analyze g chain = .ok a) :
    a.request.Nodup ∧ a.response.Nodup ∧ a.validators.Nodup ∧
      (∀ n ∈ a.request, ¬ g.isWrapper n) ∧
      ∀ n, n ∈ a.response ↔ ∃ literal, Source.responseLiteral? g h.sourceText = some literal ∧
        ∃ entry ∈ Source.pieces (literal.trim.drop 1).dropLast,
          Source.literalKey? entry = some n := by
  obtain rfl := analyze_eq_ok ha
  have hv : (analysisOf g h chain).validators.Nodup := Validator.nodup_detect _
  refine ⟨Source.nodup_requestFields, Source.nodup_responseFields, hv, ?_, ?_⟩
  · intro n hn
    exact Source.not_isWrapper_of_mem_requestFields hn
  · intro n
    exact Source.mem_responseFields

/-- A handler that takes two fields out of the wrapper and sends the wrapper back. -/
def echo : Handler := .declared (some "echo")
  (some ("const \x7b reqData \x7d = req.body; const \x7b id, name \x7d = ReqData; " ++
    "sendSuccess(res, \x7b reqData: id, name \x7d)"))

theorem analyze_distinct_echo : ∃ a, echo.analyze {} [echo, .absent] = .ok a ∧
    a.request = ["id", "name"] ∧ a.request.Nodup ∧ a.response.Nodup := by
  have h : echo.analyze {} [echo, .absent] = .ok (analysisOf {} echo [echo, .absent]) := rfl
  obtain ⟨hq, hr, -⟩ := analyze_distinct h
  exact ⟨_, h, by decide +kernel, hq, hr⟩

/-- The wrapper is among the response fields of a handler that sends it. -/
theorem wrapper_mem_response : ∃ a n, echo.analyze {} [echo] = .ok a ∧ n ∈ a.response ∧
    Grammar.isWrapper {} n :=
  ⟨_, "reqData", rfl, by decide +kernel, by decide +kernel⟩

end Handler

end RouteAtlas
