import Mathlib.Data.List.Lex
import Snode.Http.Text
import Snode.Lib.OrderedMap

/-!
# Factories

`reg_factory`: what creates the objects of a class is registered under a name, and found by
it.
-/

namespace Snode.Core

open Http

/-- What `std::less<std::string>` compares. -/
def stringRank (str : Bytes) : List ℕ :=
  str.map UInt8.toNat

theorem stringRank_injective : Function.Injective stringRank :=
  List.map_injective_iff.mpr fun _ _ => UInt8.toNat_inj.mp

/-- `std::set<std::string>`. -/
abbrev StringSet := OrderedMap stringRank Unit

def StringSet.strings (set : StringSet) : List Bytes :=
  set.entries.map Prod.fst

/-- `reg_factory`, for functions of type `φ`. -/
abbrev RegFactory (φ : Type) := OrderedMap stringRank φ

namespace RegFactory

variable {φ : Type}

def registrate (registry : RegFactory φ) (name : Bytes) (func : φ) : RegFactory φ :=
  if (registry.find name).isNone then registry.assign name func else registry

/-- The function that `create_instance` calls. -/
def createInstance (registry : RegFactory φ) (name : Bytes) : Option φ :=
  (registry.find name).map Prod.snd

def getRegList (registry : RegFactory φ) : StringSet :=
  registry.entries.foldl (fun outlist entry => outlist.assign entry.1 ()) .empty

end RegFactory

end Snode.Core
