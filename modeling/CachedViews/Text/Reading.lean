/-!
Readers: each takes a value off the front of a text and leaves the rest, or fails and
leaves the text as it was. `a <|> b` reads with `b` what `a` does not read.
-/
namespace CachedViews

abbrev Reading (α : Type) : Type := StateT (List Char) Option α

namespace Reading

variable {α β : Type}

def charWhere (test : Char → Bool) : Reading Char := fun cs =>
  match cs with
  | [] => none
  | c :: rest => if test c then some (c, rest) else none

def char (c : Char) : Reading Unit := discard (charWhere (· = c))

def word (text : String) : Reading Unit := fun cs =>
  if text.toList.isPrefixOf cs then some ((), cs.drop text.length) else none

/-- The longest front that passes the test. -/
def charsWhere (test : Char → Bool) : Reading (List Char) := fun cs => some (cs.span test)

def atEnd : Reading Unit := fun cs => if cs.isEmpty then some ((), cs) else none

def times (item : Reading α) : Nat → Reading (List α)
  | 0 => pure []
  | count + 1 => do
    let first ← item
    return first :: (← times item count)

def atMost (item : Reading α) : Nat → Reading (List α)
  | 0 => pure []
  | limit + 1 =>
    (do
      let first ← item
      return first :: (← atMost item limit)) <|> pure []

/-- Items one after the other, as far as they can be read. An item takes at least one
character, so the length of the text bounds their number. -/
def many (item : Reading α) : Reading (List α) := fun cs => atMost item cs.length cs

def separatedSome (item : Reading α) (separator : Reading β) : Reading (List α) := do
  let first ← item
  return first :: (← many (separator *> item))

def separated (item : Reading α) (separator : Reading β) : Reading (List α) :=
  separatedSome item separator <|> pure []

/-- What is read when nothing of the text may be left over. -/
def whole? (reading : Reading α) (text : String) : Option α :=
  (reading <* atEnd).run' text.toList

end Reading

end CachedViews
