/-!
# Sinks

A sink takes text a piece at a time.  It may take less than it is offered, and it may fail.
Whoever writes a text keeps offering the rest until all of it is taken or the sink fails:
`Sink.offer` gathers what the sink has taken by then, and says why it failed.

Listings are written in ASCII alone, so that a character is a byte.
-/

namespace X86Listing

/-- A sink for text. -/
structure Sink where
  /-- How many of the characters `offered` are taken by a sink that has taken `taken` before; `none`
  if it fails. -/
  accept : (taken : Nat) → (offered : List Char) → Option Nat
  /-- Why it fails. -/
  fullCause : String
  /-- Why it fails in the end, when it is asked to pass everything on; `none` if it does not. -/
  flushCause : Option String

namespace Sink

/-- Why a sink that takes nothing of what it is offered, and does not fail, is given up. -/
def stuckCause : String := "failed to write whole buffer"

/-- A sink that takes everything. -/
def unlimited : Sink :=
  ⟨fun _ offered => some offered.length, "", none⟩

/-- A sink that takes at most `chunk` characters at once and `limit` in all, and fails when it is
asked for more. -/
def limited (limit chunk : Option Nat) (fullCause : String) (flushCause : Option String) :
    Sink where
  accept taken offered :=
    let room := limit.elim offered.length (· - taken)
    if room = 0 then none else some (min (min offered.length room) (chunk.getD offered.length))
  fullCause := fullCause
  flushCause := flushCause

/-- What is taken of two texts that are offered one after the other, and what fails.  The second is
offered, to a sink that has taken so many more characters, only if the first does not fail. -/
def andThen {ε : Type} (first : List Char × Option ε) (next : Nat → List Char × Option ε) :
    List Char × Option ε :=
  match first with
  | (front, some cause) => (front, some cause)
  | (front, none) =>
      let (more, cause) := next front.length
      (front ++ more, cause)

/-- Offer a text until it is taken or the sink fails: what the sink has taken of it then, and why it
failed.  Every round takes a character, so as many rounds as characters are enough. -/
def offerLoop (sink : Sink) : (rounds taken : Nat) → (text : List Char) → List Char × Option String
  | 0, _, _ => ([], none)
  | _ + 1, _, [] => ([], none)
  | rounds + 1, taken, c :: rest =>
      match sink.accept taken (c :: rest) with
      | none => ([], some sink.fullCause)
      | some 0 => ([], some stuckCause)
      | some (count + 1) =>
          andThen (c :: rest.take count, none) fun more =>
            offerLoop sink rounds (taken + more) (rest.drop count)

/-- Offer a text to a sink that has taken `taken` characters before. -/
def offer (sink : Sink) (taken : Nat) (text : List Char) : List Char × Option String :=
  sink.offerLoop text.length taken text

end Sink

end X86Listing
