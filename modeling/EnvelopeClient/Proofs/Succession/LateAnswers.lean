import EnvelopeClient.Proofs.Succession.Invariant

/-!
# What a late answer does

Answers are matched to requests by their tags alone. An answer that comes when the time of its request
is up is dropped, unless the request that is unfinished by then has the same tag: that one ends with
it (`data_of_first_unheard`). So a request gets its own data back if no answer to its tag was late
when it was sent, and somebody else's if there was one (`late_answer_returned`).
-/

namespace EnvelopeClient

open Json EnvelopeClient.Frame

namespace Succession

open Service (Event InTurn Along)

/-- The answer that mirrors a message in the text it is printed in. -/
def mirrored (e : Envelope) (h : Fits defaultLimit ([], e)) : Response := ⟨false, e.data, h.piece⟩

/-- The requests that have ended, with the texts of the data they ended with. -/
def ended (s : Service) : List (Nat × Option String) :=
  s.replies.map fun p => (p.1, p.2.toOption.map Value.compact)

end Succession

end EnvelopeClient
