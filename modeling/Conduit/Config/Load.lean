import Mathlib.Data.UInt
import Conduit.Lib.Utf8
import Conduit.Config.Types

/-!
# Loading the configuration file

`load_yaml` (`conduit-config/src/file.rs`): serde reads the text into YAML structures, and these are
turned into the configuration. Most fields are copied. The map size of an LMDB cache is a text that
`parse_si_size` (`size.rs`) reads; `parse_duration` (`duration.rs`) reads the sync interval when the
configuration is validated.

Both cut a text at a byte index. A result is an `Option`: `none` is a thread that panics there.

- `isSome_parseSiSize`: a size is read, or refused, exactly if its last two bytes are whole
  characters.
- `isSome_parseDuration`: a duration always is.
-/

namespace Conduit.Config

open Utf8

/-! ## Texts -/

def isWhitespace (c : Char) : Bool :=
  let v := c.toNat
  (9 ≤ v && v ≤ 13) || v == 0x20 || v == 0x85 || v == 0xa0 || v == 0x1680 ||
    (0x2000 ≤ v && v ≤ 0x200a) || v == 0x2028 || v == 0x2029 || v == 0x202f || v == 0x205f ||
    v == 0x3000

def trim (s : List Char) : List Char :=
  ((s.dropWhile isWhitespace).reverse.dropWhile isWhitespace).reverse

def isAsciiDigit (b : UInt8) : Bool := 48 ≤ b && b ≤ 57

/-- The number that digits denote. -/
def ofDigits (s : List Char) : Nat := s.foldl (fun n c => 10 * n + (c.toNat - 48)) 0

/-- `parse::<u64>`: digits, maybe after a plus sign. -/
def parseU64 (s : List Char) : Option Nat :=
  let digits := match s with
    | '+' :: rest => rest
    | _ => s
  if digits ≠ [] ∧ (bytes digits).all isAsciiDigit ∧ ofDigits digits < 2 ^ 64 then
    some (ofDigits digits)
  else none

/-! ## Sizes -/

/-- The binary suffixes, which are refused. -/
def iecSuffixes : List (List Char) :=
  [['K', 'I', 'B'], ['M', 'I', 'B'], ['G', 'I', 'B'], ['T', 'I', 'B'], ['P', 'I', 'B']]

def siMultiplier : List Char → Option UInt64
  | ['K', 'B'] => some 1000
  | ['M', 'B'] => some 1000000
  | ['G', 'B'] => some 1000000000
  | ['T', 'B'] => some 1000000000000
  | ['P', 'B'] => some 1000000000000000
  | _ => none

/-- The end of `parse_si_size`: the coefficient times the multiplier of the suffix. `parseF64` is
`parse::<f64>`. -/
def siBytes (parseF64 : List Char → Option Float) (raw : String) (suffix coefStr : List Char) :
    Except String Nat :=
  if coefStr = [] then .error s!"size '{raw}' is missing a coefficient before the suffix"
  else
    match siMultiplier suffix with
    | none =>
      let other := String.ofList suffix
      .error s!"size '{raw}' has unknown suffix '{other}'; use KB/MB/GB/TB/PB or bare bytes"
    | some multiplier =>
      match parseF64 coefStr with
      | none =>
        let coef := String.ofList coefStr
        .error s!"size '{raw}' has invalid coefficient '{coef}'"
      | some coef =>
        if !coef.isFinite || coef < 0 then
          .error s!"size '{raw}' coefficient must be a non-negative finite number"
        else
          let bytes := coef * multiplier.toFloat
          if !bytes.isFinite || bytes > UInt64.toFloat (2 ^ 64 - 1) then
            .error s!"size '{raw}' exceeds maximum u64 bytes"
          else .ok bytes.toUInt64.toNat

def parseSiSize (parseF64 : List Char → Option Float) (raw : String) :
    Option (Except String Nat) :=
  let s := trim raw.toList
  let upper := s.map Char.toUpper
  if s = [] then some (.error "size must not be empty")
  else if iecSuffixes.any (·.isSuffixOf upper) then
    some (.error (s!"size '{raw}' uses binary IEC suffix; use decimal SI (KB/MB/GB/TB/PB) " ++
      "or bare bytes"))
  else if (bytes s).all isAsciiDigit then
    match parseU64 s with
    | some n => some (.ok n)
    | none => some (.error s!"size '{raw}' is not a valid byte count")
  else if size s < 3 then
    some (.error (s!"size '{raw}' must be bare bytes or a coefficient with SI suffix " ++
      "(KB/MB/GB/TB/PB)"))
  else do
    -- Both slices panic if the index is inside a character.
    let (_, suffix) ← cutAt upper (size upper - 2)
    let (coefStr, _) ← cutAt s (size s - 2)
    return siBytes parseF64 raw suffix coefStr

/-- A text that ends between characters two bytes before its end, if it is that long. -/
def EndsWhole (s : List Char) : Prop := size s < 3 ∨ ∃ a b, s = a ++ b ∧ size b = 2

theorem isAsciiDigit_lt {b : UInt8} (h : isAsciiDigit b = true) : b < 128 := by
  simp only [isAsciiDigit, Bool.and_eq_true, decide_eq_true_eq] at h
  exact UInt8.lt_of_le_of_lt h.2 (by decide)

variable {s : List Char}

theorem isSome_cutAt_suffix (h : 3 ≤ size s) :
    (cutAt s (size s - 2)).isSome ↔ EndsWhole s := by
  rw [isSome_cutAt, EndsWhole, or_iff_right (by omega)]
  constructor
  · rintro ⟨a, b, rfl, ha⟩
    rw [size_append] at ha h
    exact ⟨a, b, rfl, by omega⟩
  · rintro ⟨a, b, rfl, hb⟩
    exact ⟨a, b, rfl, by rw [size_append]; omega⟩

theorem size_of_ascii (h : ∀ c ∈ s, c.utf8Size = 1) : size s = s.length := by
  induction s with
  | nil => rfl
  | cons c s ih =>
    rw [size_cons, h c List.mem_cons_self, ih fun d hd => h d (List.mem_cons_of_mem c hd),
      List.length_cons, Nat.add_comm]

theorem endsWhole_of_ascii {a b : List Char} (hb : ∀ c ∈ b, c.utf8Size = 1) (h : 2 ≤ b.length) :
    EndsWhole (a ++ b) := by
  refine .inr ⟨a ++ b.take (b.length - 2), b.drop (b.length - 2), ?_, ?_⟩
  · rw [List.append_assoc, List.take_append_drop]
  · rw [size_of_ascii fun c hc => hb c (List.mem_of_mem_drop hc), List.length_drop]
    omega

theorem utf8Size_of_digits (h : (bytes s).all isAsciiDigit = true) :
    ∀ c ∈ s, c.utf8Size = 1 := by
  intro c hc
  obtain ⟨b, -, hone⟩ | ⟨b, rest, henc, hb⟩ := utf8EncodeChar_cases c
  · exact hone
  · have hmem : b ∈ bytes s := List.mem_flatMap.mpr ⟨c, hc, by rw [henc]; exact List.mem_cons_self⟩
    have hdigit := isAsciiDigit_lt (List.all_eq_true.mp h b hmem)
    exact absurd hb (UInt8.not_le.mpr hdigit)

theorem endsWhole_of_iec (h : iecSuffixes.any (·.isSuffixOf (s.map Char.toUpper)) = true) :
    EndsWhole s := by
  obtain ⟨iec, hmem, hsuffix⟩ := List.any_eq_true.mp h
  obtain ⟨t, ht⟩ := List.isSuffixOf_iff_suffix.mp hsuffix
  obtain ⟨a, b, rfl, -, hb⟩ := List.map_eq_append_iff.mp ht.symm
  have hall : iecSuffixes.all (fun iec => iec.length == 3 && iec.all (·.utf8Size == 1)) = true := by
    decide
  obtain ⟨hlength, hascii⟩ := Bool.and_eq_true_iff.mp (List.all_eq_true.mp hall iec hmem)
  refine endsWhole_of_ascii (fun c hc => ?_) ?_
  · rw [← utf8Size_toUpper]
    exact eq_of_beq (List.all_eq_true.mp hascii _ (hb ▸ List.mem_map_of_mem hc))
  · have hthree := eq_of_beq hlength
    rw [← List.length_map (f := Char.toUpper), hb]
    omega

theorem isSome_parseSiSize (parseF64 : List Char → Option Float) (raw : String) :
    (parseSiSize parseF64 raw).isSome ↔ EndsWhole (trim raw.toList) := by
  unfold parseSiSize
  dsimp only
  split_ifs with hnil hiec hdigits hsize
  · simp [EndsWhole, hnil]
  · simp [endsWhole_of_iec hiec]
  · have hwhole : EndsWhole (trim raw.toList) := by
      by_cases hlen : 2 ≤ (trim raw.toList).length
      · exact endsWhole_of_ascii (a := []) (utf8Size_of_digits hdigits) hlen
      · exact .inl (by rw [size_of_ascii (utf8Size_of_digits hdigits)]; omega)
    cases parseU64 (trim raw.toList) <;> simp [hwhole]
  · simp [EndsWhole, hsize]
  · rw [← isSome_cutAt_suffix (Nat.le_of_not_lt hsize), cutAt_map_toUpper, size_map_toUpper]
    cases cutAt (trim raw.toList) (size (trim raw.toList) - 2) <;> rfl

/-! ## Durations -/

def splitNumberUnit (s : List Char) : Option (Except String (List Char × List Char)) :=
  let text := String.ofList s
  match (bytes s).findIdx? (fun b => !isAsciiDigit b) with
  | none => some (.error s!"duration '{text}' must include an ms or s unit")
  | some splitAt => do
    let (number, unit) ← cutAt s splitAt
    if number = [] then return .error s!"invalid duration number in '{text}'"
    if unit = [] then return .error s!"duration '{text}' must include an ms or s unit"
    return .ok (number, unit)

/-- `parse_duration`, in milliseconds. -/
def parseDuration (raw : String) : Option (Except String Nat) :=
  let s := trim raw.toList
  let text := String.ofList s
  if s = [] then some (.error "duration must not be empty")
  else do
    match ← splitNumberUnit s with
    | .error e => return .error e
    | .ok (number, unit) =>
      match parseU64 number with
      | none => return .error s!"invalid duration number in '{text}'"
      | some value =>
        match unit.map Char.toLower with
        | ['m', 's'] => return .ok value
        | ['s'] => return .ok (1000 * value)
        | other =>
          let unit := String.ofList other
          return .error s!"duration unit '{unit}' must be ms or s"

theorem isSome_splitNumberUnit (s : List Char) : (splitNumberUnit s).isSome := by
  unfold splitNumberUnit
  dsimp only
  split
  · rfl
  · next i hi =>
    -- The index is that of the first byte that is no digit.
    obtain ⟨⟨number, unit⟩, hcut⟩ :=
      Option.isSome_iff_exists.mp (isSome_cutAt_findIdx (fun _ => isAsciiDigit_lt) hi)
    rw [hcut]
    dsimp only [bind, Option.bind]
    split_ifs <;> rfl

theorem isSome_parseDuration (raw : String) : (parseDuration raw).isSome := by
  unfold parseDuration
  dsimp only
  split_ifs
  · rfl
  · obtain ⟨parts, hparts⟩ := Option.isSome_iff_exists.mp (isSome_splitNumberUnit (trim raw.toList))
    rw [hparts]
    dsimp only [bind, Option.bind]
    cases parts with
    | error e => rfl
    | ok p =>
      dsimp only
      split
      · rfl
      · split <;> rfl

/-! ## The configuration -/

/-- `lmdb.map_size`: a number of bytes, or a text. -/
inductive YamlMapSize where
  | bytes (n : Nat)
  | si (s : String)
  deriving DecidableEq

structure YamlCacheLmdbConfig where
  path : String := ""
  mapSize : YamlMapSize
  whenFull : Option String := none
  sampleSize : Option Nat := none
  shardCount : Option Nat := none
  sync : Option String := none
  syncInterval : Option String := none
  deriving DecidableEq

/-- A cache of the file. The parts that are copied field by field are the messages they become. -/
structure YamlCacheInstance where
  name : String := ""
  cacheType : String := ""
  negativeCache : Option Message := none
  onHit : Option Message := none
  truncatedUdp : Option Message := none
  rotateRrsetOnServe : Option Bool := none
  memory : Option Message := none
  lmdb : Option YamlCacheLmdbConfig := none
  key : Option Message := none
  maxEntries : Option Nat := none
  deriving DecidableEq

/-- The file. The sections that are copied field by field are the configuration they become. -/
structure YamlConfig where
  sections : Config
  caches : List YamlCacheInstance := []
  deriving DecidableEq

variable (parseF64 : List Char → Option Float)

def cacheLmdbFromYaml (y : YamlCacheLmdbConfig) : Option (Except String CacheLmdbConfig) := do
  let mapSizeBytes ← match y.mapSize with
    | .bytes n => some (.ok n)
    | .si s => parseSiSize parseF64 s
  match mapSizeBytes with
  | .error e => return .error s!"invalid config: {e}"
  | .ok mapSizeBytes =>
    return .ok
      { path := y.path, mapSizeBytes, whenFull := y.whenFull, sampleSize := y.sampleSize
        shardCount := y.shardCount, sync := y.sync, syncInterval := y.syncInterval }

def cacheInstanceFromYaml (y : YamlCacheInstance) : Option (Except String CacheInstance) := do
  let lmdb ← match y.lmdb with
    | none => some (.ok none)
    | some lmdb => (cacheLmdbFromYaml parseF64 lmdb).map (·.map some)
  return lmdb.map fun lmdb =>
    { name := y.name, type := y.cacheType, negativeCache := y.negativeCache, onHit := y.onHit
      truncatedUdp := y.truncatedUdp, rotateRrsetOnServe := y.rotateRrsetOnServe
      memory := y.memory, lmdb, key := y.key, maxEntries := y.maxEntries }

/-- The caches, up to the first error. -/
def cachesFromYaml : List YamlCacheInstance → Option (Except String (List CacheInstance))
  | [] => some (.ok [])
  | y :: ys => do
    match ← cacheInstanceFromYaml parseF64 y with
    | .error e => return .error e
    | .ok cache => return (← cachesFromYaml ys).map (cache :: ·)

def configFromYaml (y : YamlConfig) : Option (Except String Config) := do
  return (← cachesFromYaml parseF64 y.caches).map fun caches => { y.sections with caches }

/-- `load_yaml`; `fromStr` is `serde_yaml::from_str`. -/
def loadYaml (fromStr : String → Except String YamlConfig) (input : String) :
    Option (Except String Config) :=
  match fromStr input with
  | .error e => some (.error s!"failed to parse YAML: {e}")
  | .ok y => configFromYaml parseF64 y

/-- The map size of the cache can be read or refused. -/
def YamlCacheInstance.SizeWhole (y : YamlCacheInstance) : Prop :=
  ∀ lmdb s, y.lmdb = some lmdb → lmdb.mapSize = .si s → EndsWhole (trim s.toList)

theorem isSome_cacheInstanceFromYaml {y : YamlCacheInstance} (h : y.SizeWhole) :
    (cacheInstanceFromYaml parseF64 y).isSome := by
  unfold cacheInstanceFromYaml
  cases hy : y.lmdb with
  | none => rfl
  | some lmdb =>
    have hlmdb : (cacheLmdbFromYaml parseF64 lmdb).isSome := by
      unfold cacheLmdbFromYaml
      cases hsize : lmdb.mapSize with
      | bytes n => rfl
      | si s =>
        obtain ⟨r, hr⟩ :=
          Option.isSome_iff_exists.mp ((isSome_parseSiSize parseF64 s).mpr (h lmdb s hy hsize))
        cases r <;> simp [hr]
    obtain ⟨r, hr⟩ := Option.isSome_iff_exists.mp hlmdb
    simp [hr]

theorem isSome_cachesFromYaml {ys : List YamlCacheInstance} (h : ∀ cache ∈ ys, cache.SizeWhole) :
    (cachesFromYaml parseF64 ys).isSome := by
  induction ys with
  | nil => rfl
  | cons y ys ih =>
    obtain ⟨hy, hrest⟩ := List.forall_mem_cons.mp h
    obtain ⟨r, hr⟩ := Option.isSome_iff_exists.mp (isSome_cacheInstanceFromYaml parseF64 hy)
    obtain ⟨rs, hrs⟩ := Option.isSome_iff_exists.mp (ih hrest)
    cases r <;> simp [cachesFromYaml, hr, hrs]

variable {input : String} {fromStr : String → Except String YamlConfig}

/-- A file whose map sizes can all be read or refused is loaded or refused. -/
theorem isSome_loadYaml (h : ∀ y, fromStr input = .ok y → ∀ cache ∈ y.caches, cache.SizeWhole) :
    (loadYaml parseF64 fromStr input).isSome := by
  unfold loadYaml
  cases hy : fromStr input with
  | error e => rfl
  | ok y =>
    obtain ⟨rs, hrs⟩ := Option.isSome_iff_exists.mp (isSome_cachesFromYaml parseF64 (h y hy))
    simp [configFromYaml, hrs]

/-- What a loaded file holds besides its caches is what was in the file. -/
theorem loadYaml_sections {c : Config} (h : loadYaml parseF64 fromStr input = some (.ok c)) :
    ∃ y caches, fromStr input = .ok y ∧ c = { y.sections with caches } := by
  unfold loadYaml at h
  cases hy : fromStr input with
  | error e => simp [hy] at h
  | ok y =>
    rw [hy] at h
    cases hcaches : cachesFromYaml parseF64 y.caches with
    | none => simp [configFromYaml, hcaches] at h
    | some r =>
      cases r with
      | error e => simp [configFromYaml, hcaches, Except.map] at h
      | ok caches =>
        refine ⟨y, caches, rfl, ?_⟩
        simpa [configFromYaml, hcaches, Except.map, eq_comm] using h

end Conduit.Config
