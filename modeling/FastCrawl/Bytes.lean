import Mathlib.Algebra.Group.Nat.Defs
import Mathlib.Data.List.Basic

namespace FastCrawl

/-- A `std::string` or a chunk of data: bytes, with no encoding assumed. -/
abbrev Bytes := List UInt8

def bytes (literal : String) : Bytes := literal.toList.map Char.toUInt8

/-- `std::tolower` in the "C" locale, the only one the program runs in. -/
def toLower (ch : UInt8) : UInt8 :=
  if 'A'.toUInt8 ≤ ch ∧ ch ≤ 'Z'.toUInt8 then ch + 32 else ch

theorem ne_of_class {member : UInt8 → Bool} {ch other : UInt8} (isMember : member ch = true)
    (notMember : member other = false) : ch ≠ other := by
  intro same
  rw [same, notMember] at isMember
  contradiction

/-- The assertions of the source.  The build keeps assertions, so a failed one ends the
process. -/
inductive AssertionFailure where
  /-- `assert(crawler.s_attribute_map.end() != crawler.m_tag.seek_attr)` -/
  | seekAttrIsEnd
  /-- `assert(!port_ss.fail())` -/
  | portExtraction
  /-- `assert(udata && udata->processor && udata->file)` -/
  | userdataIsNull
deriving Repr, DecidableEq

end FastCrawl
