import Mathlib.Data.List.Basic
import Mathlib.Tactic.Common
import RouteAtlas.Proofs.Handler.Balanced

/-!
# Comma lists

Object literals and patterns are lists of parts between commas. What reads single parts reads the
list, and a comma at the end does not count.
-/

namespace RouteAtlas.Source

abbrev Gap := {t : Text // t.isBlank}

def Gap.empty : Gap := ⟨[], rfl⟩

def Gap.space : Gap := ⟨" ", rfl⟩

abbrev Identifier := {t : Text // t.isIdentifier}

abbrev Expression := {t : Text // Balanced false t}

theorem Gap.balanced (gap : Gap) : Balanced false gap.1 :=
  .of_plain fun _ hc => isPlain_of_isBlank (Text.forall_of_isBlank gap.2 _ hc)

theorem Identifier.balanced (name : Identifier) : Balanced false name.1 :=
  .of_plain fun _ hc => isPlain_of_isName (Text.forall_isName_of_isIdentifier name.2 _ hc)

theorem Identifier.forall_isName (name : Identifier) : ∀ c ∈ name.1, c.isName :=
  Text.forall_isName_of_isIdentifier name.2

theorem Identifier.ne_nil (name : Identifier) : name.1 ≠ [] := by
  obtain ⟨c, r, hn, -⟩ := Text.exists_cons_of_isIdentifier name.2
  simp [hn]

theorem Identifier.trim_append (name : Identifier) (gap : Gap) :
    (name.1 ++ gap.1).trim = name.1 := by
  have hp : Text.trim ([] ++ (name.1 ++ gap.1)) = Text.trim name.1 := Text.trim_padded rfl gap.2 _
  exact hp.trans (Text.trim_of_forall fun c hc =>
    CodePoint.isBlank_of_isName (name.forall_isName c hc))

theorem Identifier.isBlank_head_append (name : Identifier) (t : Text) :
    ∀ d ∈ (name.1 ++ t).head?, d.isBlank = false := by
  obtain ⟨c, r, hn, hc, -⟩ := Text.exists_cons_of_isIdentifier name.2
  intro d hd
  obtain rfl : c = d := by simpa [hn] using hd
  exact CodePoint.isBlank_of_isNameStart hc

structure Padded (α : Type) where
  lead : Gap
  part : α
  trail : Gap

structure CommaList (α : Type) where
  entries : List (Padded α)
  /-- What stands behind a last comma, or where there are no entries. -/
  tail : Option Gap

section

variable {α β : Type} (write : α → Text)

def Padded.render (p : Padded α) : Text := p.lead.1 ++ (write p.part ++ p.trail.1)

theorem Padded.balanced (p : Padded α) (h : Balanced false (write p.part)) :
    Balanced false (p.render write) :=
  p.lead.balanced.append (h.append p.trail.balanced)

theorem Padded.trim_render (p : Padded α) : (p.render write).trim = (write p.part).trim :=
  Text.trim_padded p.lead.2 p.trail.2 _

namespace CommaList

def parts (l : CommaList α) : List α := l.entries.map (·.part)

def slots (l : CommaList α) : List Text :=
  l.entries.map (Padded.render write) ++ l.tail.toList.map (·.1)

def render (l : CommaList α) : Text := Text.join "," (l.slots write)

variable {write}

theorem balanced_of_mem_slots (h : ∀ a, Balanced false (write a)) (l : CommaList α) {t : Text}
    (ht : t ∈ l.slots write) : Balanced false t := by
  rcases List.mem_append.1 ht with ht | ht
  · obtain ⟨p, -, rfl⟩ := List.mem_map.1 ht
    exact p.balanced write (h p.part)
  · obtain ⟨gap, -, rfl⟩ := List.mem_map.1 ht
    exact gap.balanced

theorem balanced_render (h : ∀ a, Balanced false (write a)) (l : CommaList α) :
    Balanced true (l.render write) :=
  Balanced.join fun _ => l.balanced_of_mem_slots h

/-- What reads every part and nothing in white space reads the list. -/
theorem filterMap_pieces_render {read : Text → Option β} {key? : α → Option β}
    (h : ∀ a, Balanced false (write a)) (hb : ∀ t, t.isBlank → read t = none)
    (hr : ∀ p : Padded α, read (p.render write) = key? p.part) (l : CommaList α) :
    (pieces (l.render write)).filterMap read = l.parts.filterMap key? := by
  have hl : (l.entries.map (Padded.render write)).filterMap read = l.parts.filterMap key? := by
    rw [parts, List.filterMap_map, List.filterMap_map]
    exact List.filterMap_congr fun p _ => hr p
  have ht : (l.tail.toList.map (·.1)).filterMap read = [] := by
    rw [List.filterMap_eq_nil_iff]
    intro t ht
    obtain ⟨gap, -, rfl⟩ := List.mem_map.1 ht
    exact hb _ gap.2
  have hs : (pieces (l.render write)).filterMap read = (l.slots write).filterMap read := by
    rw [pieces, filterMap_dropBlankLast hb]
    by_cases hne : l.slots write = []
    · rw [render, hne]
      simpa [Text.join, cutOuter] using hb [] rfl
    · rw [render, cutOuter_join hne fun _ => l.balanced_of_mem_slots h]
  rw [hs, slots, List.filterMap_append, hl, ht, List.append_nil]

end CommaList

end

end RouteAtlas.Source
