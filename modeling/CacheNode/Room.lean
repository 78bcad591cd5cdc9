/-! How large a table can be: every byte of it needs an address of its own. -/

namespace CacheNode

abbrev TableFits (items itemBytes : Nat) : Prop := items * itemBytes < Nat.pow 2 63

end CacheNode
