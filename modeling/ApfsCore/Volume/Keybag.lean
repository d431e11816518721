import ApfsCore.Format.Reader

/-!
# Keybags

`encryption.rs`: the entries of a keybag are walked for their tags, from which the encryption
state of a volume is read off. No key is unwrapped. An entry whose header would leave the blob ends
the walk.
-/

namespace ApfsCore

/-- `KeybagTag`. -/
inductive KeybagTag where
  | unknown
  | wrappingKey
  | volumeKey
  | volumeUnlockRecords
  | volumePassphraseHint
  | userPayload
  deriving DecidableEq, Repr

/-- `KeybagTag::from_u16`. -/
def KeybagTag.fromU16 : ℕ → KeybagTag
  | 0x01 => .wrappingKey
  | 0x02 => .volumeKey
  | 0x03 => .volumeUnlockRecords
  | 0x04 => .volumePassphraseHint
  | 0xf8 => .userPayload
  | _ => .unknown

/-- `EncryptionState`. -/
structure EncryptionState where
  encrypted : Bool
  tagsPresent : List KeybagTag
  hasPassphraseHint : Bool
  unknownTags : List (ℕ × ℕ)
  deriving DecidableEq, Repr

/-- `MAX_KEYBAG_ENTRIES`. -/
def maxKeybagEntries : ℕ := 4096

/-- The loop of `read_keybag`, over at most `n` entries from offset `off` on: the raw tag of each
entry visited, and its offset. -/
def keybagEntries (data : Bytes) : ℕ → ℕ → List (ℕ × ℕ)
  | 0, _ => []
  | n + 1, off =>
    if off + 24 > data.length then []
    else
      let keylen := leU16 data (off + 18)
      let entryLen := (24 + keylen + 15) / 16 * 16
      (leU16 data (off + 16), off) :: keybagEntries data n (off + max entryLen 16)

/-- A tag is recorded the first time it is met. -/
def addTag (tags : List KeybagTag) (rawTag : ℕ) : List KeybagTag :=
  if KeybagTag.fromU16 rawTag ∈ tags then tags else tags ++ [KeybagTag.fromU16 rawTag]

/-- The state `read_keybag` makes of the entries visited. -/
def EncryptionState.ofEntries (entries : List (ℕ × ℕ)) : EncryptionState :=
  let tagsPresent := (entries.map Prod.fst).foldl addTag []
  { encrypted := tagsPresent.any fun t =>
      t = .wrappingKey ∨ t = .volumeKey ∨ t = .volumeUnlockRecords
    tagsPresent
    hasPassphraseHint := decide (KeybagTag.volumePassphraseHint ∈ tagsPresent)
    unknownTags := entries.filter fun e => KeybagTag.fromU16 e.1 = .unknown }

/-- `read_keybag`. -/
def readKeybag (data : Bytes) : Result EncryptionState :=
  .ok (.ofEntries (keybagEntries data (min (leU16 data 2) maxKeybagEntries) 16))

end ApfsCore
