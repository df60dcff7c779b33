import Bitpress.Decode
import Bitpress.Text.Basic
import Bitpress.Text.Cut

/-!
INI text: lines with a key and a value, in sections. Entries before the first
section stand by themselves. Of a section or key that is given twice the last
one counts, in the place of the first.
-/

namespace Bitpress.Ini

inductive Line
  | nothing
  | header (name : String)
  | entry (key value : String)

def Line.read? (cs : List Char) : Option Line :=
  match cs with
  | '[' :: rest =>
    if rest.getLast? = some ']' ∧ !rest.dropLast.contains ']' then
      some (.header (String.ofList rest.dropLast))
    else none
  | c :: rest =>
    if c = ';' ∨ c = '#' then some .nothing
    else
      match Text.cutAt? ['='] (c :: rest) with
      | some (key, value) =>
        some (.entry (String.ofList (Text.trimChars key)) (String.ofList (Text.trimChars value)))
      | none => none
  | [] => some .nothing

/-- What has been read: the finished sections, and the one that is open. -/
structure Progress where
  done : Table Tree := []
  title? : Option String := none
  entries : Table Tree := []

namespace Progress

/-- Puts the open section among the finished ones. -/
def close (p : Progress) : Table Tree :=
  match p.title? with
  | some name => p.done.put name (.map p.entries)
  | none => p.done

def add (p : Progress) : Line → Progress
  | .nothing => p
  | .header name => ⟨p.close, some name, []⟩
  | .entry key value =>
    match p.title? with
    | some _ => { p with entries := p.entries.put key (.str value) }
    | none => { p with done := p.done.put key (.str value) }

end Progress

/-- Reads a text as a tree. -/
def read (text : String) : Except DocumentFault Tree :=
  match (Text.lineChars text.toList).mapM Line.read? with
  | some lines => .ok (.map (lines.foldl Progress.add {}).close)
  | none => .error .malformed

end Bitpress.Ini
