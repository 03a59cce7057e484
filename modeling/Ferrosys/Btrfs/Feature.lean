import Mathlib.Data.List.Basic

/-! The flag words of a btrfs filesystem: what a block group holds, and the features a reader must
understand or may ignore, with the words a person calls them by.
-/

namespace Ferrosys.Btrfs

/-- A word of on-disk flags. -/
abbrev FlagWord := BitVec 64

namespace FlagWord

/-- Every flag of `other` is set in `word`. -/
def contains (word other : FlagWord) : Bool := word &&& other == other

/-- The word with every flag of `other` cleared. -/
def without (word other : FlagWord) : FlagWord := word &&& ~~~other

def isEmpty (word : FlagWord) : Bool := word == 0

/-- The names of the flags set, in the order of the table. -/
def names (flags : List (String × FlagWord)) (word : FlagWord) : List String :=
  (flags.filter fun row => row.2 != 0 && contains word row.2).map (·.1)

/-- The bits set that the table has no name for. -/
def unknownBits (flags : List (String × FlagWord)) (word : FlagWord) : FlagWord :=
  word.without (flags.foldl (fun known row => known ||| row.2) 0)

/-- Every flag set as one sentence, a bit without a name as its position. -/
def describe (flags : List (String × FlagWord)) (word : FlagWord) : String :=
  let unknown := unknownBits flags word
  let bits := (List.range 64).filter (unknown.getLsbD ·)
  let parts := names flags word ++ bits.map ("bit " ++ toString ·)
  if parts.isEmpty then "none" else ", ".intercalate parts

end FlagWord

namespace BlockGroupFlags

def data : FlagWord := 1 <<< 0
def system : FlagWord := 1 <<< 1
def metadata : FlagWord := 1 <<< 2
def dup : FlagWord := 1 <<< 5

end BlockGroupFlags

namespace CompatRoFlags

def freeSpaceTree : FlagWord := 1 <<< 0
def freeSpaceTreeValid : FlagWord := 1 <<< 1
def verity : FlagWord := 1 <<< 2
def blockGroupTree : FlagWord := 1 <<< 3

def flags : List (String × FlagWord) :=
  [("free-space-tree", freeSpaceTree), ("free-space-tree-valid", freeSpaceTreeValid),
    ("verity", verity), ("block-group-tree", blockGroupTree)]

end CompatRoFlags

namespace IncompatFlags

def mixedBackref : FlagWord := 1 <<< 0
def defaultSubvol : FlagWord := 1 <<< 1
def mixedGroups : FlagWord := 1 <<< 2
def compressLzo : FlagWord := 1 <<< 3
def compressZstd : FlagWord := 1 <<< 4
def bigMetadata : FlagWord := 1 <<< 5
def extendedIref : FlagWord := 1 <<< 6
def raid56 : FlagWord := 1 <<< 7
def skinnyMetadata : FlagWord := 1 <<< 8
def noHoles : FlagWord := 1 <<< 9
def metadataUuid : FlagWord := 1 <<< 10
def raid1c34 : FlagWord := 1 <<< 11
def zoned : FlagWord := 1 <<< 12
def extentTreeV2 : FlagWord := 1 <<< 13
def raidStripeTree : FlagWord := 1 <<< 14
def encrypt : FlagWord := 1 <<< 15
def simpleQuota : FlagWord := 1 <<< 16
def remapTree : FlagWord := 1 <<< 17

def flags : List (String × FlagWord) :=
  [("mixed-backref", mixedBackref), ("default-subvol", defaultSubvol),
    ("mixed-bg", mixedGroups), ("compress-lzo", compressLzo), ("compress-zstd", compressZstd),
    ("big-metadata", bigMetadata), ("extref", extendedIref), ("raid56", raid56),
    ("skinny-metadata", skinnyMetadata), ("no-holes", noHoles),
    ("metadata-uuid", metadataUuid), ("raid1c34", raid1c34), ("zoned", zoned),
    ("extent-tree-v2", extentTreeV2), ("raid-stripe-tree", raidStripeTree),
    ("encrypt", encrypt), ("squota", simpleQuota), ("remap-tree", remapTree)]

end IncompatFlags

end Ferrosys.Btrfs
