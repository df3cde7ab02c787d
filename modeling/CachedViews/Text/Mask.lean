/-!
Masking measured times in reports: the number of milliseconds after which something
timed out is written as zero, so that reports of two runs can be compared.
-/
namespace CachedViews

namespace Mask

def front : List Char := "timed out after ".toList

/-- What follows a measured time at the front of a text. -/
def afterTime? (cs : List Char) : Option (List Char) :=
  let (digits, rest) := cs.span Char.isDigit
  match digits, rest with
  | _ :: _, 'm' :: 's' :: _ => some rest
  | _, _ => none

def maskedAt (cs : List Char) : Option (List Char) :=
  if front.isPrefixOf cs then afterTime? (cs.drop front.length) else none

def maskFrom (fuel : Nat) (cs : List Char) : List Char :=
  match fuel, cs with
  | 0, _ => cs
  | _, [] => []
  | fuel + 1, c :: rest =>
    match maskedAt (c :: rest) with
    | some following => front ++ '0' :: maskFrom fuel following
    | none => c :: maskFrom fuel rest

def text (s : String) : String :=
  let cs := s.toList
  String.ofList (maskFrom cs.length cs)

end Mask

end CachedViews
