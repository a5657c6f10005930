import RdmaKv.Ex4.Addresses
import Mathlib.Data.List.GetD
import Mathlib.Data.List.TakeWhile

/-!
# The address that two parties exchange

`pp_client_exch_dest` and `pp_server_exch_dest` send a `struct pingpong_dest`
as one line of text, `lid:qpn:psn:gid`, all in hexadecimal, and read it back
with `sscanf`.  `gid_to_wire_gid` and `wire_gid_to_gid` do the same for the
four words of the GID.
-/

namespace RdmaKv

open ByteMemory

/-! ## Hexadecimal numbers -/

def hexDigit (digit : Nat) : UInt8 :=
  UInt8.ofNat (if digit < 10 then 48 + digit else 87 + digit)

def hexDigits (width number : Nat) : List Nat :=
  let digits := (Nat.digits 16 number).reverse
  List.replicate (max width 1 - digits.length) 0 ++ digits

/-- What `sprintf` writes for `%0<width>x`. -/
def sprintfHex (width number : Nat) : List UInt8 :=
  (hexDigits width number).map hexDigit

def isHexDigit (c : UInt8) : Bool := (digitValue c).any (· < 16)

/-- `strtoul` of digits with a sign, in an `unsigned int`. -/
def unsignedInt (negative : Bool) (value : Nat) : Nat :=
  (if 2 ^ 64 ≤ value then 2 ^ 64 - 1
    else if negative then 2 ^ 64 - value else value) % 2 ^ 32

def takeSign : List UInt8 → Bool × List UInt8
  | 45 :: rest => (true, rest)
  | 43 :: rest => (false, rest)
  | chars => (false, chars)

/-- `0x` before a hexadecimal number. -/
def skipPrefix : List UInt8 → List UInt8
  | 48 :: c :: rest => if c = 120 ∨ c = 88 then rest else 48 :: c :: rest
  | chars => chars

/-- `%x` of `sscanf`: the value, and what is left of the text. -/
def sscanfHex (chars : List UInt8) : Option (Nat × List UInt8) :=
  let (negative, chars) := takeSign (chars.dropWhile isSpace)
  let chars := skipPrefix chars
  if chars.takeWhile isHexDigit = [] then none
  else
    some (unsignedInt negative (readDigits 16 0 chars),
      chars.dropWhile isHexDigit)

def sscanfString (chars : List UInt8) : Option (List UInt8) :=
  let token := (chars.dropWhile isSpace).takeWhile fun c => !isSpace c
  if token = [] then none else some token

def sscanfColon : List UInt8 → Option (List UInt8)
  | 58 :: rest => some rest
  | _ => none

/-! ## The GID -/

/-- `htonl` and `ntohl` of a machine that stores the low byte first. -/
def htonl (value : Nat) : Nat :=
  value % 256 * 2 ^ 24 + value / 2 ^ 8 % 256 * 2 ^ 16 +
    value / 2 ^ 16 % 256 * 2 ^ 8 + value / 2 ^ 24 % 256

/-- The number that is written for a word of the GID. -/
def wireWord (gid : Memory) (i : Nat) : Nat := htonl (gid.loadLE (i * 4) 4)

/-- `gid_to_wire_gid`: each `sprintf` ends with a NUL that the next one writes
over. -/
def gidToWireGid (gid wgid : Memory) : Memory :=
  (List.range 4).foldl (fun wgid i =>
    let chars := sprintfHex 8 (wireWord gid i)
    wgid.copy (i * 8) (chars.length + 1) (Memory.ofList chars)) wgid

def wireText (wgid : Memory) (i : Nat) : List UInt8 :=
  (wgid.slice (i * 8) 8).takeWhile (· != 0)

/-- `wire_gid_to_gid`.  Where `sscanf` fails, `v32` keeps its value, which is
arbitrary before the first word. -/
def wireGidToGid (wgid gid : Memory) (v32 : Nat) : Memory :=
  ((List.range 4).foldl (fun (gid, v32) i =>
    let v32 := ((sscanfHex (wireText wgid i)).map Prod.fst).getD v32
    (gid.storeLE (i * 4) 4 (htonl v32), v32)) (gid, v32)).1

/-! ## The message -/

/-- `struct pingpong_dest`.  The integers are given by their bits. -/
structure PingpongDest where
  lid : Nat
  qpn : Nat
  psn : Nat
  gid : Memory

/-- `sizeof "0000:000000:000000:00000000000000000000000000000000"`. -/
def msgSize : Nat := 52

def gidSize : Nat := 33

namespace PingpongDest

/-- What `sprintf(msg, "%04x:%06x:%06x:%s", ...)` writes, without the NUL. -/
def sprintf (dest : PingpongDest) (wgid : List UInt8) : List UInt8 :=
  sprintfHex 4 dest.lid ++ 58 :: (sprintfHex 6 dest.qpn ++
    58 :: (sprintfHex 6 dest.psn ++ 58 :: wgid))

/-- `gid_to_wire_gid` and the `sprintf` into `msg`. -/
def writeMessage (dest : PingpongDest) (msg gid : Memory) : Option Memory := do
  let wgid ← (gidToWireGid dest.gid gid).string? 0 gidSize
  let chars := dest.sprintf wgid.chars
  return msg.copy 0 (chars.length + 1) (Memory.ofList chars)

/-- `sscanf(msg, "%x:%x:%x:%s", ...)`, which stops where a conversion fails.
It must not write behind the end of `gid`. -/
def sscanf (dest : PingpongDest) (gid : Memory) (chars : List UInt8) :
    Option (PingpongDest × Memory) :=
  match sscanfHex chars with
  | none => some (dest, gid)
  | some (lid, rest) =>
      let dest := { dest with lid := lid }
      match (sscanfColon rest).bind sscanfHex with
      | none => some (dest, gid)
      | some (qpn, rest) =>
          let dest := { dest with qpn := qpn }
          match (sscanfColon rest).bind sscanfHex with
          | none => some (dest, gid)
          | some (psn, rest) =>
              let dest := { dest with psn := psn }
              match (sscanfColon rest).bind sscanfString with
              | none => some (dest, gid)
              | some token =>
                  if token.length < gidSize then
                    some (dest,
                      gid.copy 0 (token.length + 1) (Memory.ofList token))
                  else none

/-- What is read from `msg`: `rem_dest` comes from `malloc`, `gid` holds
anything. -/
def readMessage (msg : Memory) (remDest : PingpongDest) (gid : Memory)
    (v32 : Nat) : Option PingpongDest := do
  let chars ← msg.string? 0 msgSize
  let (dest, gid) ← remDest.sscanf gid chars.chars
  return { dest with gid := wireGidToGid gid dest.gid v32 }

/-- The same address: the 16 bytes of the GID are the same. -/
structure Same (dest other : PingpongDest) : Prop where
  lid : dest.lid = other.lid
  qpn : dest.qpn = other.qpn
  psn : dest.psn = other.psn
  gid : dest.gid.slice 0 16 = other.gid.slice 0 16

/-- The LID has 16 bits, the QP number and the PSN have 24. -/
structure InRange (dest : PingpongDest) : Prop where
  lid : dest.lid < 2 ^ 16
  qpn : dest.qpn < 2 ^ 24
  psn : dest.psn < 2 ^ 24

end PingpongDest

/-! ## One number is read back -/

private theorem hexDigits_small {width number digit : Nat}
    (member : digit ∈ hexDigits width number) : digit < 16 := by
  rcases List.mem_append.mp member with padding | digits
  · rw [List.eq_of_mem_replicate padding]
    decide
  · exact Nat.digits_lt_base (by decide) (List.mem_reverse.mp digits)

private theorem length_sprintfHex {width number : Nat} (positive : 1 ≤ width) :
    (sprintfHex width number).length =
      max width (Nat.digits 16 number).length := by
  simp only [sprintfHex, hexDigits, List.length_map, List.length_append,
    List.length_replicate, List.length_reverse]
  omega

/-- A number that fits takes its width. -/
private theorem length_sprintfHex_le_iff {width number : Nat}
    (positive : 1 ≤ width) :
    (sprintfHex width number).length ≤ width ↔ number < 2 ^ (4 * width) := by
  have base : 2 ^ (4 * width) = 16 ^ width := Nat.pow_mul 2 4 width
  rw [length_sprintfHex positive, base,
    ← Nat.digits_length_le_iff (by decide)]
  omega

private theorem length_sprintfHex_of_lt {width number : Nat}
    (positive : 1 ≤ width)
    (fits : number < 2 ^ (4 * width)) :
    (sprintfHex width number).length = width := by
  have short := (length_sprintfHex_le_iff positive).mpr fits
  have long : (sprintfHex width number).length =
      max width (Nat.digits 16 number).length := length_sprintfHex positive
  omega

private theorem digitValue_hexDigit {digit : Nat} (small : digit < 16) :
    digitValue (hexDigit digit) = some digit := by
  revert digit
  decide

private theorem isHexDigit_hexDigit {digit : Nat} (small : digit < 16) :
    isHexDigit (hexDigit digit) = true := by
  simp [isHexDigit, digitValue_hexDigit small, small]

private theorem hexDigit_mem {digit : Nat} (small : digit < 16) :
    isSpace (hexDigit digit) = false ∧ hexDigit digit ≠ 0 ∧
      hexDigit digit ≠ 43 ∧ hexDigit digit ≠ 45 ∧ hexDigit digit ≠ 58 ∧
      hexDigit digit ≠ 88 ∧ hexDigit digit ≠ 120 := by
  revert digit
  decide

private theorem mem_sprintfHex {width number : Nat} {c : UInt8}
    (member : c ∈ sprintfHex width number) :
    ∃ digit < 16, hexDigit digit = c := by
  obtain ⟨digit, isDigit, same⟩ := List.mem_map.mp member
  exact ⟨digit, hexDigits_small isDigit, same⟩

def EndsNumber (rest : List UInt8) : Prop :=
  ∀ c ∈ rest.head?, isHexDigit c = false ∧ c ≠ 88 ∧ c ≠ 120

private theorem readDigits_hex {digits : List Nat} {rest : List UInt8}
    (small : ∀ digit ∈ digits, digit < 16) (ends : EndsNumber rest)
    (value : Nat) :
    readDigits 16 value (digits.map hexDigit ++ rest) =
      digits.foldl (fun value digit => value * 16 + digit) value := by
  induction digits generalizing value with
  | nil =>
      cases rest with
      | nil => rfl
      | cons c rest =>
          have other := (ends c rfl).1
          simp only [List.map_nil, List.nil_append, readDigits, List.foldl_nil]
          split
          · rename_i digit isDigit
            rw [isHexDigit, isDigit] at other
            rw [if_neg (by simpa using other)]
          · rfl
  | cons digit digits inductionHypothesis =>
      have isSmall := small digit List.mem_cons_self
      rw [List.map_cons, List.cons_append, readDigits,
        digitValue_hexDigit isSmall]
      simp only [if_pos isSmall, List.foldl_cons]
      exact inductionHypothesis
        (fun other member => small other (List.mem_cons_of_mem _ member)) _

private theorem foldl_hexDigits (width number : Nat) :
    (hexDigits width number).foldl (fun value digit => value * 16 + digit) 0 =
      number := by
  have padding (count : Nat) : (List.replicate count 0).foldl
      (fun value digit => value * 16 + digit) 0 = 0 := by
    induction count with
    | zero => rfl
    | succ count inductionHypothesis =>
        rw [List.replicate_succ, List.foldl_cons]
        exact inductionHypothesis
  rw [hexDigits, List.foldl_append, padding, List.foldl_reverse]
  calc (Nat.digits 16 number).foldr
        (fun digit value => value * 16 + digit) 0
      = Nat.ofDigits 16 (Nat.digits 16 number) := by
        rw [Nat.ofDigits_eq_foldr]
        congr 1
        funext digit value
        simp [Nat.mul_comm, Nat.add_comm]
    _ = number := Nat.ofDigits_digits 16 number

private theorem takeSign_of_ne {c : UInt8} {rest : List UInt8}
    (notPlus : c ≠ 43)
    (notMinus : c ≠ 45) : takeSign (c :: rest) = (false, c :: rest) := by
  unfold takeSign
  split
  · rename_i same
    exact absurd (List.cons.inj same).1 notMinus
  · rename_i same
    exact absurd (List.cons.inj same).1 notPlus
  · rfl

private theorem skipPrefix_of_ne {c : UInt8} {rest : List UInt8}
    (noPrefix : ∀ d ∈ rest.head?, d ≠ 88 ∧ d ≠ 120) :
    skipPrefix (c :: rest) = c :: rest := by
  unfold skipPrefix
  split
  · rename_i d tail same
    obtain ⟨_, follows⟩ := List.cons.inj same
    have marks := noPrefix d (by rw [follows]; rfl)
    rw [if_neg (by simp [marks.1, marks.2]), same]
  · rfl

/-- A number that was printed is read back, up to what ends it. -/
private theorem sscanfHex_sprintfHex {width number : Nat} {rest : List UInt8}
    (positive : 1 ≤ width) (fits : number < 2 ^ 32) (ends : EndsNumber rest) :
    sscanfHex (sprintfHex width number ++ rest) = some (number, rest) := by
  have small : ∀ digit ∈ hexDigits width number, digit < 16 :=
    fun _ => hexDigits_small
  have reads := readDigits_hex small ends 0
  rw [foldl_hexDigits, ← sprintfHex] at reads
  have all : ∀ c ∈ sprintfHex width number, isHexDigit c = true := by
    intro c member
    obtain ⟨digit, small, rfl⟩ := mem_sprintfHex member
    exact isHexDigit_hexDigit small
  have left : (sprintfHex width number ++ rest).dropWhile isHexDigit =
      rest := by
    rw [List.dropWhile_append_of_pos all]
    cases rest with
    | nil => rfl
    | cons c rest => rw [List.dropWhile_cons_of_neg (by simp [(ends c rfl).1])]
  have written : sprintfHex width number ≠ [] := by
    intro empty
    have long : (sprintfHex width number).length =
        max width (Nat.digits 16 number).length := length_sprintfHex positive
    rw [empty] at long
    simp only [List.length_nil] at long
    omega
  obtain ⟨c, later, isCons⟩ := List.exists_cons_of_ne_nil written
  obtain ⟨digit, small, isDigit⟩ :=
    mem_sprintfHex (isCons ▸ List.mem_cons_self : c ∈ sprintfHex width number)
  obtain ⟨notSpace, _, notPlus, notMinus, _⟩ := hexDigit_mem small
  rw [isDigit] at notSpace notPlus notMinus
  have noPrefix : ∀ d ∈ (later ++ rest).head?, d ≠ 88 ∧ d ≠ 120 := by
    intro d isHead
    cases later with
    | nil => exact (ends d isHead).2
    | cons e later =>
        obtain rfl := Option.some.inj isHead
        obtain ⟨digit', small', isDigit'⟩ := mem_sprintfHex
          (isCons ▸ List.mem_cons_of_mem _ List.mem_cons_self :
            e ∈ sprintfHex width number)
        have marks := hexDigit_mem small'
        rw [isDigit'] at marks
        exact marks.2.2.2.2.2
  have first : (c :: (later ++ rest)).takeWhile isHexDigit ≠ [] := by
    rw [List.takeWhile_cons_of_pos (all c (isCons ▸ List.mem_cons_self))]
    exact List.cons_ne_nil _ _
  rw [isCons, List.cons_append] at left reads
  rw [isCons, List.cons_append, sscanfHex,
    List.dropWhile_cons_of_neg (by simp [notSpace]),
    takeSign_of_ne notPlus notMinus]
  simp only [skipPrefix_of_ne noPrefix, if_neg first, left, reads]
  rw [unsignedInt, if_neg (by omega), if_neg (by simp), Nat.mod_eq_of_lt fits]

/-! ## The GID is read back -/

private theorem htonl_bytes {a b c d : Nat}
    (fits : a < 256 ∧ b < 256 ∧ c < 256 ∧
    d < 256) :
    htonl (a + 256 * b + 2 ^ 16 * c + 2 ^ 24 * d) =
      d + 256 * c + 2 ^ 16 * b + 2 ^ 24 * a := by
  have first : (a + 256 * b + 2 ^ 16 * c + 2 ^ 24 * d) % 256 = a := by omega
  have second : (a + 256 * b + 2 ^ 16 * c + 2 ^ 24 * d) / 2 ^ 8 % 256 = b := by
    omega
  have third : (a + 256 * b + 2 ^ 16 * c + 2 ^ 24 * d) / 2 ^ 16 % 256 = c := by
    omega
  have fourth : (a + 256 * b + 2 ^ 16 * c + 2 ^ 24 * d) / 2 ^ 24 % 256 = d := by
    omega
  rw [htonl, first, second, third, fourth]
  omega

private theorem htonl_htonl {value : Nat} (fits : value < 2 ^ 32) :
    htonl (htonl value) = value := by
  obtain ⟨a, b, c, d, small, rfl⟩ : ∃ a b c d,
      (a < 256 ∧ b < 256 ∧ c < 256 ∧ d < 256) ∧
        value = a + 256 * b + 2 ^ 16 * c + 2 ^ 24 * d :=
    ⟨value % 256, value / 2 ^ 8 % 256, value / 2 ^ 16 % 256, value / 2 ^ 24,
      by omega, by omega⟩
  rw [htonl_bytes small, htonl_bytes ⟨small.2.2.2, small.2.2.1, small.2.1,
    small.1⟩]

private theorem htonl_lt (value : Nat) : htonl value < 2 ^ 32 := by
  unfold htonl
  omega

private theorem wireWord_lt (gid : Memory) (i : Nat) :
    wireWord gid i < 2 ^ 32 :=
  htonl_lt _

def wireChars (gid : Memory) (i : Nat) : List UInt8 :=
  sprintfHex 8 (wireWord gid i)

private theorem length_wireChars (gid : Memory) (i : Nat) :
    (wireChars gid i).length = 8 :=
  length_sprintfHex_of_lt (by decide) (wireWord_lt gid i)

private theorem mem_wireChars {gid : Memory} {i : Nat} {c : UInt8}
    (member : c ∈ wireChars gid i) : c ≠ 0 ∧ isSpace c = false := by
  obtain ⟨digit, small, rfl⟩ := mem_sprintfHex member
  exact ⟨(hexDigit_mem small).2.1, (hexDigit_mem small).1⟩

def wireGid (gid : Memory) (words : Nat) : List UInt8 :=
  (List.range words).flatMap (wireChars gid)

private theorem wireGid_succ (gid : Memory) (words : Nat) :
    wireGid gid (words + 1) = wireGid gid words ++ wireChars gid words := by
  simp [wireGid, List.range_succ]

private theorem length_wireGid (gid : Memory) (words : Nat) :
    (wireGid gid words).length = words * 8 := by
  induction words with
  | zero => rfl
  | succ words inductionHypothesis =>
      rw [wireGid_succ, List.length_append, inductionHypothesis,
        length_wireChars]
      omega

private theorem mem_wireGid {gid : Memory} {words : Nat} {c : UInt8}
    (member : c ∈ wireGid gid words) : c ≠ 0 ∧ isSpace c = false := by
  obtain ⟨i, _, isChar⟩ := List.mem_flatMap.mp member
  exact mem_wireChars isChar

/-- What the loop of `gid_to_wire_gid` has written after some words. -/
private theorem gidToWireGid_words (gid wgid : Memory) (words : Nat) :
    let written := (List.range words).foldl (fun wgid i =>
      wgid.copy (i * 8) ((wireChars gid i).length + 1)
        (Memory.ofList (wireChars gid i))) wgid
    (∀ i < words * 8, written i = (wireGid gid words).getD i 0) ∧
      (0 < words → written (words * 8) = 0) := by
  induction words with
  | zero => exact ⟨fun i inside => by omega, fun some => by omega⟩
  | succ words inductionHypothesis =>
      obtain ⟨before, _⟩ := inductionHypothesis
      have long := length_wireGid gid words
      have word := length_wireChars gid words
      simp only [List.range_succ, List.foldl_append, List.foldl_cons,
        List.foldl_nil]
      refine ⟨fun i inside => ?_, fun _ => ?_⟩
      · rw [wireGid_succ]
        by_cases earlier : i < words * 8
        · rw [Memory.copy_outside _ _ (Or.inl earlier), before i earlier,
            List.getD_append _ _ _ _ (by omega)]
        · rw [Memory.copy_inside _ _ (by omega) (by omega), Memory.ofList,
            List.getD_append_right _ _ _ _ (by omega), long]
      · rw [Memory.copy_inside _ _ (by omega) (by omega), Memory.ofList,
          List.getD_eq_default _ _ (by omega)]

/-- `gid_to_wire_gid` writes a string of 32 characters. -/
private theorem string?_gidToWireGid (gid wgid : Memory) :
    (gidToWireGid gid wgid).string? 0 gidSize =
      some ⟨wireGid gid 4, fun _ member => (mem_wireGid member).1⟩ := by
  obtain ⟨chars, terminator⟩ := gidToWireGid_words gid wgid 4
  have long := length_wireGid gid 4
  rw [Memory.string?_eq_some_iff]
  refine ⟨by simp [CString.length, long, gidSize], fun i bound => ?_⟩
  simp only [CString.length, long] at bound
  rw [Nat.zero_add]
  rcases Nat.lt_or_eq_of_le bound with inside | rfl
  · exact chars i inside
  · rw [CString.memory, Memory.ofList, List.getD_eq_default _ _ (by simp [long])]
    exact terminator (by decide)

/-- The text of a word, cut out of the string. -/
private theorem wireText_wireGid {gid wgid : Memory} {i : Nat} (inside : i < 4)
    (holds : ∀ j < 32, wgid j = (wireGid gid 4).getD j 0) :
    wireText wgid i = wireChars gid i := by
  have word := length_wireChars gid i
  have chars : wgid.slice (i * 8) 8 = wireChars gid i := by
    rw [← word]
    refine Memory.slice_eq_of_getD fun j bound => ?_
    rw [word] at bound
    have earlier := length_wireGid gid i
    obtain ⟨later, split⟩ : ∃ later, wireGid gid 4 =
        wireGid gid i ++ wireChars gid i ++ later := by
      refine ⟨(List.range' (i + 1) (4 - (i + 1))).flatMap (wireChars gid), ?_⟩
      rw [← wireGid_succ, wireGid, wireGid, List.range_eq_range',
        List.range_eq_range', ← List.flatMap_append]
      congr 1
      have sum : 4 = (i + 1) + (4 - (i + 1)) := by omega
      conv_lhs => rw [sum]
      rw [← List.range'_append_1, Nat.zero_add]
    rw [word, holds _ (by omega), split, List.getD_append _ _ _ _ (by simp; omega),
      List.getD_append_right _ _ _ _ (by omega), earlier,
      Nat.add_sub_cancel_left]
  rw [wireText, chars, List.takeWhile_eq_self_iff.mpr]
  intro c member
  simpa using (mem_wireChars member).1

/-- `wire_gid_to_gid` finds the words that `gid_to_wire_gid` wrote. -/
private theorem sscanfHex_wireText {gid wgid : Memory} {i : Nat}
    (inside : i < 4)
    (holds : ∀ j < 32, wgid j = (wireGid gid 4).getD j 0) :
    (sscanfHex (wireText wgid i)).map Prod.fst = some (wireWord gid i) := by
  have ends : EndsNumber [] := by
    simp [EndsNumber]
  have width : 1 ≤ 8 := by
    decide
  have reads := sscanfHex_sprintfHex width (wireWord_lt gid i) ends
  rw [List.append_nil] at reads
  rw [wireText_wireGid inside holds, wireChars, reads]
  rfl

/-- The words of the GID are stored one after the other. -/
private theorem wireGidToGid_words {gid wgid before : Memory} {v32 words : Nat}
    (all : words ≤ 4) (holds : ∀ j < 32, wgid j = (wireGid gid 4).getD j 0) :
    ∀ i < words * 4, ((List.range words).foldl (fun (gid, v32) i =>
      let v32 := ((sscanfHex (wireText wgid i)).map Prod.fst).getD v32
      (gid.storeLE (i * 4) 4 (htonl v32), v32)) (before, v32)).1 i =
        gid i := by
  induction words with
  | zero =>
      intro i inside
      omega
  | succ words inductionHypothesis =>
      intro i inside
      simp only [List.range_succ, List.foldl_append, List.foldl_cons,
        List.foldl_nil, sscanfHex_wireText (show words < 4 by omega) holds,
        Option.getD_some]
      have load := Memory.loadLE_lt gid (words * 4) 4
      rw [wireWord, htonl_htonl load]
      by_cases earlier : i < words * 4
      · rw [Memory.storeLE_outside _ _ (Or.inl earlier)]
        exact inductionHypothesis (by omega) i earlier
      · rw [Memory.storeLE, Memory.copy_inside _ _ (by omega) (by omega),
          Memory.byte_loadLE (by omega)]
        congr 1
        omega

/-- The GID is read back. -/
private theorem wireGidToGid_wireGid {gid wgid before : Memory} {v32 : Nat}
    (holds : ∀ j < 32, wgid j = (wireGid gid 4).getD j 0) :
    (wireGidToGid wgid before v32).slice 0 16 = gid.slice 0 16 := by
  refine Memory.slice_congr fun i _ inside => ?_
  exact wireGidToGid_words le_rfl holds i (by omega)

/-! ## The message is read back -/

namespace PingpongDest

variable {dest : PingpongDest}

private theorem length_sprintf (dest : PingpongDest) :
    (dest.sprintf (wireGid dest.gid 4)).length =
      (sprintfHex 4 dest.lid).length + (sprintfHex 6 dest.qpn).length +
        (sprintfHex 6 dest.psn).length + 35 := by
  rw [sprintf, List.length_append, List.length_cons, List.length_append,
    List.length_cons, List.length_append, List.length_cons, length_wireGid]
  omega

private theorem inRange_iff : dest.InRange ↔
    (sprintfHex 4 dest.lid).length ≤ 4 ∧
    (sprintfHex 6 dest.qpn).length ≤ 6 ∧
    (sprintfHex 6 dest.psn).length ≤ 6 := by
  rw [length_sprintfHex_le_iff (by decide), length_sprintfHex_le_iff (by decide),
    length_sprintfHex_le_iff (by decide)]
  constructor
  · rintro ⟨lid, qpn, psn⟩
    exact ⟨lid, qpn, psn⟩
  · rintro ⟨lid, qpn, psn⟩
    exact ⟨lid, qpn, psn⟩

/-- The text and its NUL stay inside `msg` only where the numbers have their
widths, and fill it then. -/
private theorem sprintf_fits_iff (dest : PingpongDest) :
    (dest.sprintf (wireGid dest.gid 4)).length + 1 ≤ msgSize ↔
      dest.InRange := by
  have lid := @length_sprintfHex 4 dest.lid (by decide)
  have qpn := @length_sprintfHex 6 dest.qpn (by decide)
  have psn := @length_sprintfHex 6 dest.psn (by decide)
  rw [length_sprintf, inRange_iff, msgSize]
  omega

private theorem length_sprintf_of_inRange (inRange : dest.InRange) :
    (dest.sprintf (wireGid dest.gid 4)).length = 51 := by
  have lid := @length_sprintfHex 4 dest.lid (by decide)
  have qpn := @length_sprintfHex 6 dest.qpn (by decide)
  have psn := @length_sprintfHex 6 dest.psn (by decide)
  have widths := inRange_iff.mp inRange
  rw [length_sprintf]
  omega

private theorem mem_sprintf {c : UInt8}
    (member : c ∈ dest.sprintf (wireGid dest.gid 4)) : c ≠ 0 := by
  have number {width number : Nat} (isChar : c ∈ sprintfHex width number) :
      c ≠ 0 := by
    obtain ⟨digit, small, rfl⟩ := mem_sprintfHex isChar
    exact (hexDigit_mem small).2.1
  simp only [sprintf, List.mem_append, List.mem_cons] at member
  rcases member with isLid | rfl | isQpn | rfl | isPsn | rfl | isGid
  · exact number isLid
  · decide
  · exact number isQpn
  · decide
  · exact number isPsn
  · decide
  · exact (mem_wireGid isGid).1

/-- The text as a string. -/
def text (dest : PingpongDest) : CString :=
  ⟨dest.sprintf (wireGid dest.gid 4), fun _ member => mem_sprintf member⟩

theorem writeMessage_eq (dest : PingpongDest) (msg gid : Memory) :
    dest.writeMessage msg gid = some
      (msg.copy 0 (dest.text.length + 1) dest.text.memory) := by
  simp only [writeMessage, string?_gidToWireGid, Option.bind_eq_bind,
    Option.bind_some, Option.pure_def]
  rfl

private theorem endsNumber_colon (rest : List UInt8) : EndsNumber
    (58 :: rest) := by
  intro c isHead
  obtain rfl := Option.some.inj isHead
  decide

private theorem sscanfString_wireGid (gid : Memory) :
    sscanfString (wireGid gid 4) = some (wireGid gid 4) := by
  have long := length_wireGid gid 4
  have noSpace : ∀ c ∈ wireGid gid 4, isSpace c = false :=
    fun c member => (mem_wireGid member).2
  obtain ⟨c, rest, isCons⟩ : ∃ c rest, wireGid gid 4 = c :: rest := by
    refine List.exists_cons_of_ne_nil fun empty => ?_
    rw [empty] at long
    exact absurd long (by decide)
  have first := noSpace c (isCons ▸ List.mem_cons_self)
  have trimmed : (wireGid gid 4).dropWhile isSpace = wireGid gid 4 := by
    rw [isCons, List.dropWhile_cons_of_neg (by simp [first])]
  have token : (wireGid gid 4).takeWhile (fun c => !isSpace c) =
      wireGid gid 4 :=
    List.takeWhile_eq_self_iff.mpr fun c member => by simp [noSpace c member]
  rw [sscanfString, trimmed, token, if_neg (by simp [isCons])]

private theorem sscanfColon_bind {α : Type} (scan : List UInt8 → Option α)
    (rest : List UInt8) :
    (sscanfColon (58 :: rest)).bind scan = scan rest := by
  rw [sscanfColon, Option.bind_some]

/-- `sscanf` finds all four parts. -/
private theorem sscanf_parts {lid qpn psn : Nat}
    {lidChars qpnChars psnChars gidChars : List UInt8}
    (isLid : ∀ rest, sscanfHex (lidChars ++ 58 :: rest) =
      some (lid, 58 :: rest))
    (isQpn : ∀ rest, sscanfHex (qpnChars ++ 58 :: rest) =
      some (qpn, 58 :: rest))
    (isPsn : ∀ rest, sscanfHex (psnChars ++ 58 :: rest) =
      some (psn, 58 :: rest))
    (isGid : sscanfString gidChars = some gidChars)
    (short : gidChars.length < gidSize) (remDest : PingpongDest)
    (gid : Memory) :
    remDest.sscanf gid (lidChars ++ 58 :: (qpnChars ++ 58 :: (psnChars ++
        58 :: gidChars))) =
      some (⟨lid, qpn, psn, remDest.gid⟩,
        gid.copy 0 (gidChars.length + 1) (Memory.ofList gidChars)) := by
  rw [sscanf, isLid]
  simp only [sscanfColon_bind, isQpn, isPsn, isGid]
  rw [if_pos short]

private theorem sscanf_sprintf (inRange : dest.InRange) (remDest : PingpongDest)
    (gid : Memory) :
    remDest.sscanf gid (dest.sprintf (wireGid dest.gid 4)) =
      some ({ dest with gid := remDest.gid },
        gid.copy 0 ((wireGid dest.gid 4).length + 1)
          (Memory.ofList (wireGid dest.gid 4))) := by
  have small {number bits : Nat} (inside : number < 2 ^ bits)
      (few : bits < 32) : number < 2 ^ 32 :=
    inside.trans (Nat.pow_lt_pow_right (by decide) few)
  refine sscanf_parts (fun rest => ?_) (fun rest => ?_) (fun rest => ?_)
    (sscanfString_wireGid dest.gid) ?_ remDest gid
  · exact sscanfHex_sprintfHex (by decide) (small inRange.lid (by decide))
      (endsNumber_colon rest)
  · exact sscanfHex_sprintfHex (by decide) (small inRange.qpn (by decide))
      (endsNumber_colon rest)
  · exact sscanfHex_sprintfHex (by decide) (small inRange.psn (by decide))
      (endsNumber_colon rest)
  · rw [length_wireGid]
    decide

theorem readMessage_text (inRange : dest.InRange) {msg : Memory}
    (holds : ∀ i < msgSize, msg i = dest.text.memory i)
    (remDest : PingpongDest) (gid : Memory) (v32 : Nat) :
    ∃ received, readMessage msg remDest gid v32 = some received ∧
      received.Same dest := by
  have long : dest.text.length = 51 := length_sprintf_of_inRange inRange
  have found : msg.string? 0 msgSize = some dest.text := by
    rw [Memory.string?_eq_some_iff, long]
    refine ⟨by decide, fun i bound => ?_⟩
    rw [Nat.zero_add]
    exact holds i (Nat.lt_succ_of_le bound)
  rw [readMessage, found]
  simp only [Option.bind_eq_bind, Option.bind_some, Option.pure_def, text,
    sscanf_sprintf inRange]
  refine ⟨_, rfl, rfl, rfl, rfl, wireGidToGid_wireGid fun j inside => ?_⟩
  have words := length_wireGid dest.gid 4
  rw [Memory.copy_inside _ _ (by omega) (by omega)]
  rfl

/-- What is on the wire: `sizeof msg` bytes. -/
def Message (dest : PingpongDest) (bytes : List UInt8) : Prop :=
  ∃ msg gid sent, dest.writeMessage msg gid = some sent ∧
    bytes = sent.slice 0 msgSize

theorem length_message {bytes : List UInt8} (message : dest.Message bytes) :
    bytes.length = msgSize := by
  obtain ⟨_, _, _, _, rfl⟩ := message
  exact Memory.length_slice _ _ _

theorem message_eq {bytes : List UInt8} (inRange : dest.InRange)
    (message : dest.Message bytes) :
    ∀ i < msgSize, Memory.ofList bytes i = dest.text.memory i := by
  obtain ⟨msg, gid, sent, isSent, rfl⟩ := message
  obtain rfl := Option.some.inj ((writeMessage_eq dest msg gid).symm.trans isSent)
  have long : dest.text.length = 51 := length_sprintf_of_inRange inRange
  intro i inside
  have room : i < 52 := inside
  rw [Memory.ofList, Memory.getD_slice _ _ inside,
    Memory.copy_inside _ _ (by omega) (by omega)]
  congr 1
  omega

/-- An address is written inside `msg` and read back, whatever the buffers
hold, exactly where its numbers have their widths. -/
theorem message_survives_iff (dest remDest : PingpongDest)
    (msg gid gid' : Memory) (v32 : Nat) :
    (∃ sent received, dest.writeMessage msg gid = some sent ∧
      dest.text.length + 1 ≤ msgSize ∧
      readMessage (Memory.ofList (sent.slice 0 msgSize)) remDest gid' v32 =
        some received ∧ received.Same dest) ↔ dest.InRange := by
  constructor
  · rintro ⟨_, _, _, fits, _⟩
    exact (sprintf_fits_iff dest).mp fits
  · intro inRange
    have holds := message_eq inRange ⟨msg, gid, _, writeMessage_eq dest msg gid,
      rfl⟩
    obtain ⟨received, reads, same⟩ :=
      readMessage_text inRange holds remDest gid' v32
    exact ⟨_, received, writeMessage_eq dest msg gid,
      (sprintf_fits_iff dest).mpr inRange, reads, same⟩

end PingpongDest

end RdmaKv
