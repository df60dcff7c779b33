import Bitpress.Declaration.Basic
import Bitpress.Element

/-!
Constants: named pairs of a symbol and a value, such as `g = 9.81`.
-/

namespace Bitpress

structure Constant where
  info : ElementInfo
  symbol : String
  value : String
deriving Inhabited

namespace Constant

/-- The constant of a declaration, with the tags of its registry after its own. -/
def ofDecl (d : ConstantDecl) (commonTags : List String) : Press Constant := do
  return ⟨← ElementInfo.create d.name (d.tags ++ commonTags) d.metadata, d.symbol, d.value⟩

def text (c : Constant) : String := c.symbol ++ " = " ++ c.value

def ownField? (c : Constant) (key : String) : Option Tree :=
  if key = "symbol" then some (.str c.symbol)
  else if key = "value" then some (.str c.value)
  else none

instance : Element Constant := ⟨Constant.info, Constant.ownField?⟩

end Constant

end Bitpress
