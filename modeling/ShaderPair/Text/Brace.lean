import ShaderPair.Text.Basic

/-!
# Braces

`Brace.closing?` finds the brace that closes an open one, by counting, and `Brace.wrap`
inserts one text at the start and one at the end of the braces that follow a word.
-/

namespace ShaderPair

namespace Brace

/-- The position of the first closing brace that brings the number of open braces to zero,
when `depth` of them are open before the text. -/
def closing? (depth : Int) : Text → Option Nat
  | [] => none
  | c :: r =>
    if c = '\x7b' then (closing? (depth + 1) r).map (· + 1)
    else if c = '\x7d' then
      if depth - 1 = 0 then some 0 else (closing? (depth - 1) r).map (· + 1)
    else (closing? depth r).map (· + 1)

/-- The position at which the text inside of an open brace ends: in front of the brace that
closes it, or else in front of the last closing brace. -/
def bodyEnd? (t : Text) : Option Nat :=
  match closing? 1 t with
  | some i => some i
  | none => Text.lastIndexOf? '\x7d' t

/-- A text divided behind the first opening brace after the first occurrence of `word`. -/
def divide? (word t : Text) : Option (Text × Text) :=
  (Text.indexOf? word t).bind fun i =>
    (Text.indexOf? ['\x7b'] (t.drop i)).map fun j => (t.take (i + j + 1), t.drop (i + j + 1))

/-- A text with `start` behind the first opening brace after `word`, and `finish` and a line
break in front of the brace that closes it.  The end is looked for after `start` has been
put in; an empty `finish` is not put in at all. -/
def wrap (word start finish t : Text) : Text :=
  match divide? word t with
  | none => t
  | some (head, tail) =>
    let body := start ++ tail
    if finish.isEmpty then head ++ body
    else match bodyEnd? body with
      | none => head ++ body
      | some i => head ++ body.take i ++ finish ++ ['\n'] ++ body.drop i

end Brace

end ShaderPair
