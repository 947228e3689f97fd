import KVCache.Data.OrderedMap
import KVCache.Data.Words

/-! The simulated SSD: a RocksDB store that holds the geometry and one key for
every block, and the enumeration of the blocks from these keys. The store is a
persistent map in the byte order of its keys; `create` opens the store of its
path and adds to what is there. On a device the blocks are enumerated without a
store, and a block is a range of bytes. -/

namespace KVCache

abbrev Text := List Char

/-! ### Numbers as text -/

/-- `std::to_string` and `std::format` of an `int` that is not negative. -/
def decimal (n : Nat) : Text := Nat.toDigits 10 n

def isSpace (c : Char) : Bool := c = ' ' || ('\t' ≤ c && c ≤ '\r')

/-- `std::stoi`: blanks, a sign and the digits that follow. It throws without a
digit, and when the number is not an `int`. -/
def stoi (text : Text) : Option Int :=
  let (negative, digits) := match text.dropWhile isSpace with
    | '-' :: rest => (true, rest.takeWhile Char.isDigit)
    | '+' :: rest => (false, rest.takeWhile Char.isDigit)
    | rest => (false, rest.takeWhile Char.isDigit)
  if digits = [] then none
  else
    let magnitude : Int := Nat.ofDigitChars 10 digits 0
    let value := if negative then -magnitude else magnitude
    if -2 ^ 31 ≤ value ∧ value < 2 ^ 31 then some value else none

/-! ### Keys -/

def kNumBlocksKey : Text := ['/', 'n', 'r', '_', 'b', 'l', 'o', 'c', 'k', 's']
def kBlockSizeKey : Text := ['/', 'b', 'l', 'o', 'c', 'k', '_', 's', 'i', 'z', 'e']
def kNumChannelsKey : Text := ['/', 'n', 'r', '_', 'c', 'h', 'a', 'n', 'n', 'e', 'l', 's']
def kBlockPerChannelKey : Text :=
  ['/', 'b', 'l', 'o', 'c', 'k', '_', 'p', 'e', 'r', '_', 'c', 'h', 'a', 'n', 'n', 'e', 'l']
def kBlockPrefix : Text := ['/', 'b', 'l', 'o', 'c', 'k', 's']

def blockKey (channel block : Nat) : Text :=
  kBlockPrefix ++ '/' :: (decimal channel ++ '/' :: decimal block)

/-- The two parts of a key behind `/blocks/`, around the next delimiter. -/
def splitKey (key : Text) : Option (Text × Text) :=
  match (key.drop 8).dropWhile (· ≠ '/') with
  | [] => none
  | _ :: blockId => some ((key.drop 8).takeWhile (· ≠ '/'), blockId)

/-! ### Creation -/

/-- `SSD::Config`. All numbers are positive, and they and the number of blocks
are `int`s. -/
structure SsdConfig where
  nrChannels : Nat
  blocksPerChannel : Nat
  blockSize : Nat
  channels_pos : 0 < nrChannels
  blocks_pos : 0 < blocksPerChannel
  size_pos : 0 < blockSize
  blocks_int : blocksPerChannel * nrChannels < 2 ^ 31
  size_int : blockSize < 2 ^ 31

def SsdConfig.nrBlocks (g : SsdConfig) : Nat := g.blocksPerChannel * g.nrChannels

abbrev Store := OrderedMap Text Text

/-- The loops over the channels and over the blocks of a channel, with the
running block id that the body gets. -/
def forEachBlock {β : Type} (nrChannels blocksPerChannel : Nat) (body : Nat → Nat → β → β)
    (start : β) : β :=
  ((List.range nrChannels).foldl (fun state channel =>
    (List.range blocksPerChannel).foldl (fun state _ =>
      (body channel state.2 state.1, state.2 + 1)) state) (start, 0)).1

namespace Store

/-- The store after `SSD::create`. -/
def create (store : Store) (g : SsdConfig) : Store :=
  let store := store.put kBlockPerChannelKey (decimal g.blocksPerChannel)
  let store := store.put kNumBlocksKey (decimal g.nrBlocks)
  let store := store.put kBlockSizeKey (decimal g.blockSize)
  let store := store.put kNumChannelsKey (decimal g.nrChannels)
  forEachBlock g.nrChannels g.blocksPerChannel
    (fun channel blockId store => store.put (blockKey channel blockId) []) store

/-- The store of a path after a sequence of creations. -/
def createAll (configs : List SsdConfig) : Store := configs.foldl create .empty

end Store

/-! ### The SSD -/

structure Block where
  blockId : Int
  channelId : Int
  deriving DecidableEq, Repr

structure Ssd where
  nrChannels : Int
  nrBlocks : Int
  blockSize : Int
  blocksPerChannel : Int
  db : Store

namespace Ssd

/-- The constructor for a RocksDB path reads the geometry back. -/
def ofStore (db : Store) : Option Ssd := do
  let nrBlocks ← stoi (← db.get kNumBlocksKey)
  let blockSize ← stoi (← db.get kBlockSizeKey)
  let nrChannels ← stoi (← db.get kNumChannelsKey)
  let blocksPerChannel ← stoi (← db.get kBlockPerChannelKey)
  return ⟨nrChannels, nrBlocks, blockSize, blocksPerChannel, db⟩

/-- The constructor of `Block`. -/
def block (ssd : Ssd) (blockId : Int) : Block := ⟨blockId, blockId.tdiv ssd.blocksPerChannel⟩

/-- The calls of `iterate_all_blocks` for the keys that are left, each with the
channel number in the key, which the code parses and does not use. -/
def visit (ssd : Ssd) : List Text → Option (List (Int × Block))
  | [] => some []
  | key :: rest =>
      match splitKey key with
      | none => ssd.visit rest
      | some (channelId, blockId) => do
          let channel ← stoi channelId
          let block := ssd.block (← stoi blockId)
          return (channel, block) :: (← ssd.visit rest)

/-- `iterate_all_blocks` on a RocksDB store. -/
def iterateStore (ssd : Ssd) : Option (List (Int × Block)) := ssd.visit (ssd.db.scan kBlockPrefix)

/-- `iterate_all_blocks` on a device. -/
def iterateDevice (ssd : Ssd) : List Block :=
  forEachBlock ssd.nrChannels.toNat ssd.blocksPerChannel.toNat
    (fun _ blockId blocks => blocks ++ [ssd.block blockId]) []

/-! ### Devices -/

/-- `SSD::create` for a device path. Nothing is stored. -/
def createDevice (g : SsdConfig) : Ssd :=
  ⟨g.nrChannels, g.nrBlocks, g.blockSize, g.blocksPerChannel, .empty⟩

/-- `dstart_`, where the blocks of a device start. -/
def dstart : Int := 0

/-- The offset at which `Block::read` and `Block::write` access a device. The
product is formed in `int` and then widened. -/
def offset (ssd : Ssd) (blockId : Int) : Int := dstart + Word.int (blockId * ssd.blockSize)

/-- The bytes of a device that a block reads and writes. -/
def byteRange (ssd : Ssd) (blockId : Int) : Set Int :=
  Set.Ico (ssd.offset blockId) (ssd.offset blockId + ssd.blockSize)

end Ssd

end KVCache
