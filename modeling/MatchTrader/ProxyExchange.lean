import MatchTrader.TransparentProxy

/-! What the proxy sends to the origin and back to its client, and what is read of it there: the same fields from end to end and
the same body, however the first message was framed. -/

namespace MatchTrader

open Numeral

namespace Proxy

variable {f : Field} {headers fields : List Field} {body s rest : List UInt8} {netloc : List UInt8}

section Names

variable {own excluded : List (List UInt8)} {before after : List Field}

end Names

section Lengths

theorem int_decText {n : Nat} (h : n < 2 ^ 63) : int 10 latinSpace (decText n) = .ok n := by
  have hlen : (decText n).length ≤ 19 := length_decText (by decide) (h.trans (by decide))
  rw [int_of_plain (decText_spec n).1 (by decide) fun c => latinSpace_digit, if_neg (by omega), (decText_spec n).2]

end Lengths

section Framed

/-- A message whose one length is that of its body, or that has neither a length nor a body. -/
structure Framed (fields : List Field) (body : List UInt8) : Prop where
  coding : transferEncoding fields = []
  length : contentLength fields = [decText body.length] ∨ contentLength fields = [] ∧ body = []

/-- The relay reads the body, and leaves what follows it. -/
theorem Framed.readBody (h : Framed fields body) (hb : body.length < 2 ^ 63) : Relay.readBody fields (body ++ rest) = .ok (body, [], rest) := by
  have hcoding : (transferEncoding fields).headD [] = [] := by rw [h.coding]; rfl
  rw [Relay.readBody_iff]
  obtain hl | ⟨hl, rfl⟩ := h.length
  · exact ⟨[], body, rfl, .sized hl hcoding (int_decText hb) hb⟩
  · exact ⟨[], [], rfl, .empty hl hcoding⟩

/-- The dashboard reads the same, within its limit. -/
theorem Framed.readForwardBody (h : Framed fields body) (hb : body.length ≤ maxRequest) :
    Dashboard.readForwardBody fields (body ++ rest) = .ok (body, rest) := by
  rw [Dashboard.readForwardBody_iff]
  obtain hl | ⟨hl, rfl⟩ := h.length
  · obtain ⟨hplain, hread⟩ := decText_spec body.length
    have hlen : (decText body.length).length ≤ 19 := length_decText (by decide) (hb.trans_lt (by decide))
    exact ⟨body, rfl, .sized hl h.coding hplain (hlen.trans (by decide)) hread hb⟩
  · exact ⟨[], rfl, .empty hl h.coding⟩

end Framed

section Forwarded

end Forwarded

section Answered

variable {command : Command} {response : ProxyResponse}

end Answered

end Proxy

end MatchTrader
