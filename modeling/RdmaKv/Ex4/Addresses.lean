import RdmaKv.Library.ByteMemory
import Mathlib.Data.Nat.Digits.Lemmas

/-!
# The addresses of the servers

`parse_args` of `kv_client.c` and of `nweb23.c`, and what `mkv_open` and
`dkv_open` make of the array.  The two copies differ in the index of the first
server argument only; both allocate `g_argc - 1` elements.
-/

namespace RdmaKv

open ByteMemory

def defaultSrvPort : Int := 12345

def defaultIdxPort : Int := 12346

/-! ## The string functions of C -/

/-- `strtok` with the delimiter `:`, and what is left for the next call. -/
def strtok (chars : List UInt8) : Option (List UInt8) × List UInt8 :=
  let token := chars.dropWhile (· == 58)
  if token.isEmpty then (none, [])
  else (some (token.takeWhile (· != 58)), (token.dropWhile (· != 58)).drop 1)

def isSpace (c : UInt8) : Bool := c == 32 || (9 ≤ c && c ≤ 13)

def digitValue (c : UInt8) : Option Nat :=
  if 48 ≤ c ∧ c ≤ 57 then some (c.toNat - 48)
  else if 97 ≤ c ∧ c ≤ 122 then some (c.toNat - 87)
  else if 65 ≤ c ∧ c ≤ 90 then some (c.toNat - 55)
  else none

/-- The number that the leading digits make. -/
def readDigits (base : Nat) (value : Nat) : List UInt8 → Nat
  | [] => value
  | c :: rest =>
      match digitValue c with
      | some digit =>
          if digit < base then readDigits base (value * base + digit) rest
          else value
      | none => value

/-- The base that a prefix asks for, where base 0 is given. -/
def detectBase : List UInt8 → Nat × List UInt8
  | 48 :: c :: d :: rest =>
      if (c = 120 ∨ c = 88) ∧ (digitValue d).any (· < 16) then
        (16, d :: rest)
      else (8, 48 :: c :: d :: rest)
  | 48 :: rest => (8, 48 :: rest)
  | chars => (10, chars)

/-- `strtol`, which saturates. -/
def strtol (base : Nat) (chars : List UInt8) : Int :=
  let chars := chars.dropWhile isSpace
  let (sign, chars) : Int × List UInt8 :=
    match chars with
    | 45 :: rest => (-1, rest)
    | 43 :: rest => (1, rest)
    | chars => (1, chars)
  let (base, chars) := if base = 0 then detectBase chars else (base, chars)
  max (-2 ^ 63) (min (2 ^ 63 - 1) (sign * readDigits base 0 chars))

def toInt (value : Int) : Int := value.bmod (2 ^ 32)

def toShort (value : Int) : Int := value.bmod (2 ^ 16)

def atoi (chars : List UInt8) : Int := toInt (strtol 10 chars)

/-! ## `parse_args` -/

/-- `struct kv_server_address`, whose `port` is a `short`. -/
structure KvServerAddress where
  servername : Option (List UInt8)
  port : Int
  deriving DecidableEq

/-- An array from `malloc`: how many elements it has, what its elements hold,
also behind its end, and which ones were assigned. -/
structure AddressArray where
  allocated : Nat
  elements : Nat → Option KvServerAddress
  assigned : List Nat

namespace AddressArray

def malloc (allocated : Nat) : AddressArray := ⟨allocated, fun _ => none, []⟩

def assign (array : AddressArray) (index : Nat) (address : KvServerAddress) :
    AddressArray :=
  { array with
    elements := fun other =>
      if other = index then some address else array.elements other
    assigned := array.assigned ++ [index] }

/-- Everything was written inside the array. -/
def Inside (array : AddressArray) : Prop :=
  ∀ index ∈ array.assigned, index < array.allocated

end AddressArray

/-- One argument `host` or `host:port`. -/
def parseAddress (convert : List UInt8 → Int) (defaultPort : Int)
    (arg : CString) : Option KvServerAddress :=
  let (servername, rest) := strtok arg.chars
  match (strtok rest).1 with
  | some portToken =>
      let port := convert portToken
      if port < 0 ∨ port > 65535 then none
      else some ⟨servername, toShort port⟩
  | none => some ⟨servername, defaultPort⟩

/-- The loop over the server arguments, the first of which is `g_argv[first]`. -/
def parseServers (first : Nat) :
    Nat → List CString → AddressArray → Option AddressArray
  | _, [], servers => some servers
  | argIdx, arg :: rest, servers => do
      let address ←
        parseAddress (fun token => toInt (strtol 0 token)) defaultSrvPort arg
      parseServers first (argIdx + 1) rest
        (servers.assign (argIdx - first) address)

/-- `parse_args`, for a program that needs `minimum` arguments.  The indexer is
the argument before the first server. -/
def parseArgsFrom (first minimum : Nat) (argv : List CString) :
    Option (KvServerAddress × AddressArray) :=
  if argv.length < minimum then none
  else do
    let arg ← argv[first - 1]?
    let indexer ← parseAddress atoi defaultIdxPort arg
    let servers ← parseServers first first (argv.drop first)
      (AddressArray.malloc (argv.length - 1))
    return (indexer, servers.assign (argv.length - first) ⟨none, 0⟩)

def KvClient.parseArgs (argv : List CString) :
    Option (KvServerAddress × AddressArray) := parseArgsFrom 2 3 argv

def Nweb.parseArgs (argv : List CString) :
    Option (KvServerAddress × AddressArray) := parseArgsFrom 1 2 argv

/-! ## `mkv_open` and `dkv_open` -/

/-- What a call of `orig_main` connects to: its `servername` and its `port`,
which is an `int`. -/
structure OrigMain where
  servername : Option (List UInt8)
  port : Int
  deriving DecidableEq

/-- `servername = server->servername` and `port = server->port`. -/
def KvServerAddress.origMain (server : KvServerAddress) : OrigMain :=
  ⟨server.servername, server.port⟩

namespace AddressArray

/-- The loop that counts the servers from an index on, for at most `fuel`
elements. -/
def countServers (servers : AddressArray) : Nat → Nat → Option Nat
  | 0, _ => none
  | fuel + 1, count => do
      let server ← servers.elements count
      if server.servername.isSome then servers.countServers fuel (count + 1)
      else return count

def numServers (servers : AddressArray) : Option Nat :=
  servers.countServers (servers.allocated + 1) 0

/-- The loop that connects to `remaining` servers from an index on, up to the
first one that refuses. -/
def connect (refuses : OrigMain → Bool) (servers : AddressArray) :
    Nat → Nat → List OrigMain
  | 0, _ => []
  | remaining + 1, count =>
      match servers.elements count with
      | some server =>
          server.origMain :: if refuses server.origMain then []
            else servers.connect refuses remaining (count + 1)
      | none => []

/-- The calls of `orig_main` that `mkv_open` makes. -/
def mkvOpen (refuses : OrigMain → Bool) (servers : AddressArray) :
    Option (List OrigMain) :=
  servers.numServers.map fun count => servers.connect refuses count 0

end AddressArray

/-! ## What the arguments say -/

/-- A number in decimal, without leading zeros. -/
def decimal (number : Nat) : List UInt8 :=
  (Nat.digits 10 number).reverse.map fun digit => UInt8.ofNat (48 + digit)

theorem decimal_digit {digit : Nat} (small : digit < 10) :
    (UInt8.ofNat (48 + digit)).toNat = 48 + digit :=
  UInt8.toNat_ofNat_of_lt' (by
    simp only [UInt8.size]
    omega)

theorem mem_decimal {number : Nat} {c : UInt8} (member : c ∈ decimal number) :
    48 ≤ c.toNat ∧ c.toNat ≤ 57 := by
  obtain ⟨digit, isDigit, rfl⟩ := List.mem_map.mp member
  have small : digit < 10 :=
    Nat.digits_lt_base (by decide) (List.mem_reverse.mp isDigit)
  rw [decimal_digit small]
  omega

/-- What an argument names: a host, and a port if it names one. -/
structure Address where
  host : CString
  port : Option Nat
  named : host.chars ≠ []
  noColon : 58 ∉ host.chars
  inRange : ∀ number ∈ port, 1 ≤ number ∧ number ≤ 65535

namespace Address

/-- `host` or `host:port`. -/
def chars (address : Address) : List UInt8 :=
  address.host.chars ++
    match address.port with
    | some number => 58 :: decimal number
    | none => []

def arg (address : Address) : CString where
  chars := address.chars
  nonzero c member := by
    rcases List.mem_append.mp member with inHost | inPort
    · exact address.host.nonzero c inHost
    · split at inPort
      · rcases List.mem_cons.mp inPort with rfl | digit
        · decide
        · intro isZero
          have lower := (mem_decimal digit).1
          rw [isZero] at lower
          exact absurd lower (by decide)
      · exact absurd inPort List.not_mem_nil

def expected (defaultPort : Int) (address : Address) : OrigMain :=
  ⟨some address.host.chars,
    match address.port with
    | some number => number
    | none => defaultPort⟩

/-- The port fits into a `short`. -/
def PortFits (address : Address) : Prop :=
  ∀ number ∈ address.port, number < 2 ^ 15

end Address

/-- The addresses survive: the array is not left, `mkv_open` counts the
servers, and every `orig_main` gets the address of its argument, up to the
first server that refuses. -/
structure Survives (indexer : Address) (servers : List Address)
    (parsed : KvServerAddress × AddressArray) : Prop where
  inside : parsed.2.Inside
  count : parsed.2.numServers = some servers.length
  calls : ∀ refuses, ∃ made, parsed.2.mkvOpen refuses = some made ∧
    made <+: servers.map (Address.expected defaultSrvPort) ∧
    ((∀ call ∈ made, refuses call = false) → made.length = servers.length)
  indexer : parsed.1.origMain = indexer.expected defaultIdxPort

/-! ## One argument -/

private theorem readDigits_map {digits : List Nat}
    (small : ∀ digit ∈ digits, digit < 10)
    (value : Nat) :
    readDigits 10 value (digits.map fun digit => UInt8.ofNat (48 + digit)) =
      digits.foldl (fun value digit => value * 10 + digit) value := by
  induction digits generalizing value with
  | nil => rfl
  | cons digit rest inductionHypothesis =>
      have isSmall : digit < 10 := small digit List.mem_cons_self
      have code := decimal_digit isSmall
      have reads : digitValue (UInt8.ofNat (48 + digit)) = some digit := by
        rw [digitValue, if_pos, code, Nat.add_sub_cancel_left]
        rw [UInt8.le_iff_toNat_le, UInt8.le_iff_toNat_le, code]
        exact ⟨Nat.le_add_right _ _, by simp; omega⟩
      rw [List.map_cons, readDigits, reads]
      simp only [if_pos isSmall, List.foldl_cons]
      exact inductionHypothesis
        (fun other member => small other (List.mem_cons_of_mem _ member)) _

private theorem readDigits_decimal (number : Nat) :
    readDigits 10 0 (decimal number) = number := by
  have small : ∀ digit ∈ (Nat.digits 10 number).reverse, digit < 10 :=
    fun digit member =>
      Nat.digits_lt_base (by decide) (List.mem_reverse.mp member)
  rw [decimal, readDigits_map small, List.foldl_reverse]
  calc (Nat.digits 10 number).foldr
        (fun digit value => value * 10 + digit) 0
      = Nat.ofDigits 10 (Nat.digits 10 number) := by
        rw [Nat.ofDigits_eq_foldr]
        congr 1
        funext digit value
        simp [Nat.mul_comm, Nat.add_comm]
    _ = number := Nat.ofDigits_digits 10 number

/-- The first digit is not 0. -/
private theorem decimal_cons {number : Nat} (positive : number ≠ 0) :
    ∃ c rest, decimal number = c :: rest ∧ 49 ≤ c.toNat ∧ c.toNat ≤ 57 := by
  have nonempty : Nat.digits 10 number ≠ [] :=
    Nat.digits_ne_nil_iff_ne_zero.mpr positive
  have nonzero := Nat.getLast_digit_ne_zero 10 positive
  have member := List.getLast_mem nonempty
  have small := Nat.digits_lt_base (by decide : 1 < 10) member
  obtain ⟨before, split⟩ : ∃ before, Nat.digits 10 number =
      before ++ [(Nat.digits 10 number).getLast nonempty] :=
    ⟨_, (List.dropLast_append_getLast nonempty).symm⟩
  have reversed : (Nat.digits 10 number).reverse =
      (Nat.digits 10 number).getLast nonempty :: before.reverse := by
    conv_lhs => rw [split]
    simp
  refine ⟨_, _, by rw [decimal, reversed, List.map_cons], ?_⟩
  rw [decimal_digit small]
  omega

private theorem strtol_decimal {base number : Nat}
    (isBase : base = 0 ∨ base = 10)
    (range : 1 ≤ number ∧ number ≤ 65535) :
    strtol base (decimal number) = number := by
  have positive : number ≠ 0 := by omega
  obtain ⟨c, rest, cons, lower, upper⟩ := decimal_cons positive
  have notSpace : isSpace c = false := by
    simp only [isSpace, Bool.or_eq_false_iff, Bool.and_eq_false_iff,
      beq_eq_false_iff_ne, decide_eq_false_iff_not, UInt8.le_iff_toNat_le,
      ne_eq, ← UInt8.toNat_inj]
    refine ⟨?_, Or.inr ?_⟩
    · intro same
      rw [same] at lower
      exact absurd lower (by decide)
    · intro below
      exact absurd (Nat.le_trans lower below) (by decide)
  have other (code : UInt8) (small : code.toNat < 49) : c ≠ code := by
    rintro rfl
    omega
  have minus : c ≠ 45 := other 45 (by decide)
  have plus : c ≠ 43 := other 43 (by decide)
  have zero : c ≠ 48 := other 48 (by decide)
  have value : readDigits 10 0 (c :: rest) = number := by
    rw [← cons, readDigits_decimal]
  have detected : detectBase (c :: rest) = (10, c :: rest) := by
    simp [detectBase, zero]
  have chosen : (if base = 0 then detectBase (c :: rest)
      else (base, c :: rest)) = (10, c :: rest) := by
    rcases isBase with rfl | rfl
    · rw [if_pos rfl, detected]
    · rfl
  rw [strtol, cons, List.dropWhile_cons_of_neg (by simp [notSpace])]
  simp [minus, plus, chosen, value]
  omega

/-- `strtok` finds the host before the colon. -/
private theorem strtok_host {host rest : List UInt8} (named : host ≠ [])
    (noColon : 58 ∉ host) :
    strtok (host ++ 58 :: rest) = (some host, rest) ∧
      strtok host = (some host, []) := by
  obtain ⟨c, later, rfl⟩ := List.exists_cons_of_ne_nil named
  have head : c ≠ 58 := fun same => noColon (same ▸ List.mem_cons_self)
  have all : ∀ d ∈ c :: later, (d != 58) = true := fun d member =>
    bne_iff_ne.mpr fun same => noColon (same ▸ member)
  have starts : ∀ tail, (c :: later ++ tail).dropWhile (· == 58) =
      c :: later ++ tail := fun tail => by
    rw [List.cons_append, List.dropWhile_cons_of_neg (by simpa using head)]
  constructor
  · simp only [strtok, starts]
    rw [List.takeWhile_append_of_pos all, List.dropWhile_append_of_pos all]
    simp
  · have whole := starts []
    rw [List.append_nil] at whole
    have taken := @List.takeWhile_append_of_pos _ _ (c :: later) [] all
    have dropped := @List.dropWhile_append_of_pos _ _ (c :: later) [] all
    rw [List.append_nil, List.takeWhile_nil, List.append_nil] at taken
    rw [List.append_nil, List.dropWhile_nil] at dropped
    simp [strtok, whole, taken, dropped]

/-- A token without a colon is taken whole. -/
private theorem strtok_decimal {number : Nat} (positive : number ≠ 0) :
    (strtok (decimal number)).1 = some (decimal number) := by
  have noColon : 58 ∉ decimal number := fun member =>
    absurd (mem_decimal member).2 (by decide)
  have nonempty : decimal number ≠ [] := by
    obtain ⟨c, rest, cons, _⟩ := decimal_cons positive
    simp [cons]
  rw [(@strtok_host _ [] nonempty noColon).2]

/-- What is stored for an argument. -/
def Address.stored (defaultPort : Int) (address : Address) :
    KvServerAddress :=
  ⟨some address.host.chars,
    match address.port with
    | some number => toShort number
    | none => defaultPort⟩

private theorem parseAddress_arg {convert : List UInt8 → Int}
    (defaultPort : Int)
    (reads : ∀ number, 1 ≤ number ∧ number ≤ 65535 →
      convert (decimal number) = number) (address : Address) :
    parseAddress convert defaultPort address.arg =
      some (address.stored defaultPort) := by
  change parseAddress convert defaultPort
    ⟨address.chars, address.arg.nonzero⟩ = _
  unfold parseAddress Address.stored
  simp only [Address.chars]
  cases named : address.port with
  | none =>
      simp only [List.append_nil]
      rw [(@strtok_host _ [] address.named address.noColon).2]
      rfl
  | some number =>
      have range := address.inRange number named
      simp only
      rw [(strtok_host address.named address.noColon).1]
      simp only
      rw [strtok_decimal (by omega)]
      simp only [reads number range]
      rw [if_neg (by omega)]

private theorem toInt_of_port {number : Nat}
    (range : 1 ≤ number ∧ number ≤ 65535) :
    toInt number = number := by
  simp only [toInt, Int.bmod]
  omega

/-- Both conversions read a port that is written in decimal. -/
private theorem toInt_strtol_decimal {base : Nat}
    (isBase : base = 0 ∨ base = 10)
    (number : Nat) (range : 1 ≤ number ∧ number ≤ 65535) :
    toInt (strtol base (decimal number)) = number := by
  rw [strtol_decimal isBase range]
  exact toInt_of_port range

private theorem toShort_eq_iff {number : Nat}
    (range : 1 ≤ number ∧ number ≤ 65535) :
    toShort number = number ↔ number < 2 ^ 15 := by
  simp only [toShort, Int.bmod]
  omega

/-- The conversion to `short` and back keeps the ports below `2 ^ 15`. -/
theorem Address.origMain_stored_iff (defaultPort : Int) (address : Address) :
    (address.stored defaultPort).origMain = address.expected defaultPort ↔
      address.PortFits := by
  unfold stored expected PortFits KvServerAddress.origMain
  cases named : address.port with
  | none => simp
  | some number =>
      have range := address.inRange number named
      simpa using toShort_eq_iff range

/-! ## The array -/

namespace AddressArray

variable {array : AddressArray} {servers : List Address}

/-- The elements from an index on hold the servers. -/
def Holds (array : AddressArray) (first : Nat) (servers : List Address) :
    Prop :=
  ∀ (i : Nat) server, servers[i]? = some server →
    array.elements (first + i) = some (server.stored defaultSrvPort)

theorem Holds.head {first : Nat} {server : Address}
    (holds : array.Holds first (server :: servers)) :
    array.elements first = some (server.stored defaultSrvPort) :=
  holds 0 server rfl

theorem Holds.tail {first : Nat} {server : Address}
    (holds : array.Holds first (server :: servers)) :
    array.Holds (first + 1) servers := fun i other isOther => by
  have found := holds (i + 1) other isOther
  rwa [← Nat.add_assoc, Nat.add_right_comm] at found

/-- Each round of the loop writes one element. -/
private theorem parseServers_args (first done : Nat) (array : AddressArray) :
    ∃ parsed, parseServers first (first + done) (servers.map Address.arg)
        array = some parsed ∧
      parsed.allocated = array.allocated ∧
      parsed.assigned =
        array.assigned ++ List.range' done servers.length ∧
      parsed.Holds done servers ∧
      ∀ i < done, parsed.elements i = array.elements i := by
  induction servers generalizing done array with
  | nil =>
      exact ⟨array, rfl, rfl, (List.append_nil _).symm,
        fun i server found => absurd found (by simp), fun i _ => rfl⟩
  | cons server rest inductionHypothesis =>
      have parses := @parseAddress_arg (fun token => toInt (strtol 0 token))
        defaultSrvPort (toInt_strtol_decimal (Or.inl rfl)) server
      obtain ⟨parsed, ran, allocated, assigned, holds, earlier⟩ :=
        inductionHypothesis (done + 1)
          (array.assign done (server.stored defaultSrvPort))
      refine ⟨parsed, ?_, allocated, ?_, fun i other found => ?_,
        fun i before => ?_⟩
      · rw [List.map_cons, parseServers, parses]
        simp only [Option.bind_eq_bind, Option.bind_some,
          Nat.add_sub_cancel_left]
        rwa [Nat.add_assoc]
      · rw [assigned, assign, List.append_assoc, List.length_cons,
          List.range'_succ]
        rfl
      · cases i with
        | zero =>
            obtain rfl := Option.some.inj found
            rw [Nat.add_zero, earlier done (Nat.lt_succ_self done)]
            exact if_pos rfl
        | succ i =>
            have inRest := holds i other found
            rwa [Nat.add_assoc, Nat.add_comm 1] at inRest
      · rw [earlier i (Nat.lt_succ_of_lt before)]
        exact if_neg (Nat.ne_of_lt before)

private theorem countServers_holds {first fuel : Nat}
    (holds : array.Holds first servers)
    (ends : array.elements (first + servers.length) = some ⟨none, 0⟩)
    (enough : servers.length < fuel) :
    array.countServers fuel first = some (first + servers.length) := by
  induction servers generalizing first fuel with
  | nil =>
      obtain ⟨fuel, rfl⟩ := Nat.exists_eq_succ_of_ne_zero
        (Nat.ne_of_gt enough)
      have last : array.elements first = some ⟨none, 0⟩ := ends
      simp [countServers, last]
  | cons server rest inductionHypothesis =>
      cases fuel with
      | zero => exact absurd enough (Nat.not_lt_zero _)
      | succ fuel =>
          rw [List.length_cons, ← Nat.add_assoc, Nat.add_right_comm] at ends
          have counts := inductionHypothesis holds.tail ends
            (Nat.lt_of_succ_lt_succ enough)
          simp only [countServers, holds.head, Option.bind_eq_bind,
            Option.bind_some, Address.stored, Option.isSome_some, if_true]
          rw [counts, List.length_cons, Nat.add_right_comm, Nat.add_assoc]

/-- The calls of `orig_main` go through the array in order. -/
private theorem connect_holds {first : Nat} (refuses : OrigMain → Bool)
    (holds : array.Holds first servers) :
    array.connect refuses servers.length first <+: servers.map (fun server =>
        (server.stored defaultSrvPort).origMain) ∧
      ((∀ call ∈ array.connect refuses servers.length first,
        refuses call = false) →
        (array.connect refuses servers.length first).length =
          servers.length) := by
  induction servers generalizing first with
  | nil => exact ⟨List.nil_prefix, fun _ => rfl⟩
  | cons server rest inductionHypothesis =>
      obtain ⟨isPrefix, all⟩ := inductionHypothesis holds.tail
      simp only [List.length_cons, connect, holds.head, List.map_cons]
      split
      · rename_i refused
        refine ⟨List.cons_prefix_cons.mpr ⟨rfl, List.nil_prefix⟩, ?_⟩
        intro accepted
        exact absurd (accepted _ List.mem_cons_self) (by simp [refused])
      · refine ⟨List.cons_prefix_cons.mpr ⟨rfl, isPrefix⟩, fun accepted => ?_⟩
        exact congrArg Nat.succ (all fun call member =>
          accepted call (List.mem_cons_of_mem _ member))

end AddressArray

/-! ## The two copies -/

section Copies

variable {indexer : Address} {servers : List Address}

/-- What both copies make of the arguments: the array holds the servers and
the end mark behind them. -/
private theorem parseArgsFrom_args {first minimum : Nat} {argv : List CString}
    (enough : minimum ≤ argv.length)
    (isIndexer : argv[first - 1]? = some indexer.arg)
    (areServers : argv.drop first = servers.map Address.arg) :
    ∃ array, parseArgsFrom first minimum argv =
        some (indexer.stored defaultIdxPort, array) ∧
      array.allocated = argv.length - 1 ∧
      array.assigned = List.range (servers.length + 1) ∧
      array.Holds 0 servers ∧
      array.elements servers.length = some ⟨none, 0⟩ := by
  have parses := @parseAddress_arg atoi defaultIdxPort
    (toInt_strtol_decimal (Or.inr rfl)) indexer
  obtain ⟨parsed, ran, allocated, assigned, holds, _⟩ :=
    @AddressArray.parseServers_args servers first 0
      (AddressArray.malloc (argv.length - 1))
  have count : argv.length - first = servers.length := by
    rw [← List.length_drop, areServers, List.length_map]
  refine ⟨parsed.assign servers.length ⟨none, 0⟩, ?_, allocated, ?_, ?_,
    if_pos rfl⟩
  · rw [parseArgsFrom, if_neg (Nat.not_lt.mpr enough), isIndexer, areServers,
      count]
    simp only [Option.bind_eq_bind, Option.bind_some, parses]
    rw [Nat.add_zero] at ran
    rw [ran]
    rfl
  · rw [AddressArray.assign, assigned, List.range_succ, List.range_eq_range']
    rfl
  · intro i server found
    have inside : i < servers.length :=
      (List.getElem?_eq_some_iff.mp found).1
    rw [Nat.zero_add]
    refine (if_neg (Nat.ne_of_lt inside)).trans ?_
    have inParsed := holds i server found
    rwa [Nat.zero_add] at inParsed

/-- With room for the end mark, the addresses survive exactly if their ports
fit into a `short`. -/
private theorem survives_iff {array : AddressArray}
    (room : array.allocated = servers.length + 1)
    (assigned : array.assigned = List.range (servers.length + 1))
    (holds : array.Holds 0 servers)
    (ends : array.elements servers.length = some ⟨none, 0⟩) :
    Survives indexer servers (indexer.stored defaultIdxPort, array) ↔
      ∀ address ∈ indexer :: servers, address.PortFits := by
  have count : array.numServers = some servers.length := by
    have counts := AddressArray.countServers_holds holds
      (by rwa [Nat.zero_add])
      (by omega : servers.length < array.allocated + 1)
    rwa [Nat.zero_add] at counts
  have made (refuses : OrigMain → Bool) : array.mkvOpen refuses =
      some (array.connect refuses servers.length 0) := by
    rw [AddressArray.mkvOpen, count]
    rfl
  constructor
  · intro survives address member
    rcases List.mem_cons.mp member with rfl | isServer
    · exact (address.origMain_stored_iff _).mp survives.indexer
    · obtain ⟨calls, ran, isPrefix, all⟩ := survives.calls fun _ => false
      obtain rfl := Option.some.inj ((made _).symm.trans ran)
      obtain ⟨isStored, allStored⟩ :=
        AddressArray.connect_holds (fun _ => false) holds
      have stored := isStored.eq_of_length
        ((allStored fun _ _ => rfl).trans (List.length_map _).symm)
      have expected := isPrefix.eq_of_length
        ((all fun _ _ => rfl).trans (List.length_map _).symm)
      exact (address.origMain_stored_iff _).mp
        (List.map_inj_left.mp (stored.symm.trans expected) address isServer)
  · intro fit
    have same : servers.map (fun server =>
        (server.stored defaultSrvPort).origMain) =
        servers.map (Address.expected defaultSrvPort) :=
      List.map_inj_left.mpr fun server member =>
        (server.origMain_stored_iff _).mpr
          (fit server (List.mem_cons_of_mem _ member))
    refine ⟨fun i member => ?_, count, fun refuses => ?_, ?_⟩
    · rw [assigned] at member
      exact room ▸ List.mem_range.mp member
    · obtain ⟨isStored, allStored⟩ :=
        AddressArray.connect_holds refuses holds
      exact ⟨_, made refuses, same ▸ isStored, allStored⟩
    · exact (indexer.origMain_stored_iff _).mpr
        (fit indexer List.mem_cons_self)

/-- Without room for it, the end mark is written behind the array. -/
private theorem not_survives_of_full {array : AddressArray}
    {stored : KvServerAddress}
    (full : array.allocated = servers.length)
    (assigned : array.assigned = List.range (servers.length + 1)) :
    ¬ Survives indexer servers (stored, array) := fun survives => by
  have inside := survives.inside servers.length (by
    rw [assigned]
    exact List.mem_range.mpr (Nat.lt_succ_self _))
  rw [full] at inside
  exact Nat.lt_irrefl _ inside

/-- The addresses survive `kv_client.c` exactly if all ports are below
`2 ^ 15`, and `nweb23.c` never: its first server is `g_argv[1]`, but the array
is as long as the one of `kv_client.c`, where it is `g_argv[2]`. -/
theorem parseArgs_survives (program : CString) (indexer first : Address)
    (rest : List Address) :
    ((∃ parsed, KvClient.parseArgs (program :: indexer.arg ::
        (first :: rest).map Address.arg) = some parsed ∧
        Survives indexer (first :: rest) parsed) ↔
      ∀ address ∈ indexer :: first :: rest, address.PortFits) ∧
    ¬ ∃ parsed, Nweb.parseArgs (indexer.arg ::
        (first :: rest).map Address.arg) = some parsed ∧
        Survives indexer (first :: rest) parsed := by
  constructor
  · obtain ⟨array, ran, allocated, assigned, holds, ends⟩ :=
      @parseArgsFrom_args indexer (first :: rest) 2 3
        (program :: indexer.arg :: (first :: rest).map Address.arg)
        (by simp) rfl rfl
    have room : array.allocated = (first :: rest).length + 1 := by
      rw [allocated]
      simp
    refine Iff.trans ?_ (survives_iff room assigned holds ends)
    rw [KvClient.parseArgs, ran]
    simp
  · rintro ⟨parsed, ran, survives⟩
    obtain ⟨array, parses, allocated, assigned, _⟩ :=
      @parseArgsFrom_args indexer (first :: rest) 1 2
        (indexer.arg :: (first :: rest).map Address.arg) (by simp) rfl rfl
    obtain rfl := Option.some.inj (parses.symm.trans ran)
    refine not_survives_of_full ?_ assigned survives
    rw [allocated]
    simp

private theorem hostA_ne_zero : (97 : UInt8) ≠ 0 := by decide

private theorem hostB_ne_zero : (98 : UInt8) ≠ 0 := by decide

/-- `nweb 8181 a b:40000`. -/
def hostA : Address where
  host := CString.cons 97 hostA_ne_zero CString.empty
  port := none
  named := by decide
  noColon := by decide
  inRange := by simp

def hostB : Address where
  host := CString.cons 98 hostB_ne_zero CString.empty
  port := some 40000
  named := by decide
  noColon := by decide
  inRange := by simp

theorem parseArgs_survives_fails :
    ¬ ∀ (program : CString) (indexer first : Address) (rest : List Address),
      (∃ parsed, KvClient.parseArgs (program :: indexer.arg ::
        (first :: rest).map Address.arg) = some parsed ∧
        Survives indexer (first :: rest) parsed) ∧
      ∃ parsed, Nweb.parseArgs (indexer.arg ::
        (first :: rest).map Address.arg) = some parsed ∧
        Survives indexer (first :: rest) parsed := by
  intro always
  obtain ⟨parsed, ran, survives⟩ := (always CString.empty hostA hostB []).2
  have parses : Nweb.parseArgs (hostA.arg :: [hostB].map Address.arg) =
      some (hostA.stored defaultIdxPort,
        ((AddressArray.malloc 1).assign 0
          (hostB.stored defaultSrvPort)).assign 1 ⟨none, 0⟩) := by
    rfl
  obtain rfl := Option.some.inj (parses.symm.trans ran)
  exact absurd (survives.inside 1 (by decide)) (by decide)

end Copies

end RdmaKv
