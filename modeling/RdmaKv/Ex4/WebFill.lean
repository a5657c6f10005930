import RdmaKv.Ex4.Latest
import RdmaKv.Ex4.Web

/-!
# What `recursive_fill_kv` leaves

The fill calls `dkv_set` for every file, whatever its size.  A file that is
larger than a buffer breaks the connection to its server: small files of that
server are not stored any more, and the next large one ends the process.
-/

namespace RdmaKv.Nweb

open ByteMemory Interaction

/-! ## Files -/

namespace File

abbrev IsEager (file : File) : Prop := Ledger.IsEager 0 file.path file.size

/-- The size as `kv_set` is given it, an `unsigned int`. -/
def length (file : File) : Nat := file.size % unsignedRange

/-- It is written to a buffer that is too small. -/
abbrev Overflows (file : File) : Prop :=
  ¬ file.IsEager ∧ maxTestSize < file.length

def remember (cached : Option File) (file : File) : Option File :=
  if file.IsEager then cached else some file

private theorem isEager_length (file : File) :
    Ledger.IsEager 0 file.path file.length ↔ file.IsEager := by
  have same : (file.path.length + file.length + sizeofPacket + 1 + 0) %
      unsignedRange =
        (file.path.length + file.size + sizeofPacket + 1 + 0) %
          unsignedRange := by
    simp only [length, Nat.add_zero, Nat.add_assoc]
    rw [Nat.add_left_comm, Nat.mod_add_mod, Nat.add_left_comm]
  unfold IsEager Ledger.IsEager
  rw [same]

private theorem length_lt (file : File) : file.length < unsignedRange :=
  Nat.mod_lt _ (by decide)

end File

/-- The fill has broken the connection to a server. -/
def Breaks (numServers : Nat) (files : List File) (id : Nat) : Prop :=
  ∃ file ∈ files, selectServer numServers file.path = id ∧ file.Overflows

instance (numServers : Nat) (files : List File) (id : Nat) :
    Decidable (Breaks numServers files id) :=
  inferInstanceAs (Decidable (∃ file ∈ files,
    selectServer numServers file.path = id ∧ file.Overflows))

/-- `dkv_set` of a file returns, after these were set. -/
def Settable (numServers : Nat) (front : List File) (file : File) : Prop :=
  file.path.length + 1 + sizeofPacket ≤ eagerProtocolLimit ∧
    if file.IsEager then
      12 + (file.path.length + 1) + file.length ≤ eagerProtocolLimit
    else ¬ Breaks numServers front (selectServer numServers file.path)

instance (numServers : Nat) (front : List File) (file : File) :
    Decidable (Settable numServers front file) := by
  unfold Settable
  infer_instance

/-- `recursive_fill_kv` returns, after some files were set. -/
def FillableAfter (numServers : Nat) : List File → List File → Prop
  | _, [] => True
  | front, file :: rest =>
      Settable numServers front file ∧
        FillableAfter numServers (front ++ [file]) rest

instance decidableFillableAfter (numServers : Nat) :
    ∀ front rest, Decidable (FillableAfter numServers front rest)
  | _, [] => inferInstanceAs (Decidable True)
  | front, file :: rest =>
      have := decidableFillableAfter numServers (front ++ [file]) rest
      inferInstanceAs (Decidable (Settable numServers front file ∧
        FillableAfter numServers (front ++ [file]) rest))

def Fillable (numServers : Nat) (files : List File) : Prop :=
  FillableAfter numServers [] files

def earlier (files : List File) (key : CString) : List File :=
  files.takeWhile fun file => decide (file.path ≠ key)

/-- What a server holds of a file that was set after these. -/
def File.left (numServers : Nat) (front : List File) (file : File) :
    Option Kept :=
  if file.IsEager then
    if Breaks numServers front (selectServer numServers file.path) then none
    else some (.inline (file.contents.slice 0 file.length))
  else
    some (.buffer file.length
      (if file.length ≤ maxTestSize then
        Memory.zero.copy 0 file.length file.contents
      else Memory.zero))

section Files

variable {numServers : Nat} {files : List File} {file : File} {key : CString}

private theorem breaks_append_singleton {id : Nat} :
    Breaks numServers (files ++ [file]) id ↔
      Breaks numServers files id ∨
        (selectServer numServers file.path = id ∧ file.Overflows) := by
  simp [Breaks, or_and_right, exists_or]

private theorem fillableAfter_append {front rest : List File} :
    FillableAfter numServers front (files ++ rest) ↔
      FillableAfter numServers front files ∧
        FillableAfter numServers (front ++ files) rest := by
  induction files generalizing front with
  | nil => simp [FillableAfter]
  | cons file files inductionHypothesis =>
      simp only [List.cons_append, FillableAfter, inductionHypothesis, and_assoc,
        List.append_assoc, List.nil_append]

/-- Every file is set after those before it. -/
theorem Fillable.settable {front back : List File}
    (fillable : Fillable numServers (front ++ file :: back)) :
    Settable numServers front file := by
  have later := (fillableAfter_append.mp fillable).2
  rw [List.nil_append] at later
  exact later.1

private theorem earlier_append_of_mem (member : file ∈ files)
    (rest : List File) :
    earlier (files ++ rest) file.path = earlier files file.path := by
  induction files with
  | nil => exact absurd member List.not_mem_nil
  | cons first files inductionHypothesis =>
      unfold earlier at inductionHypothesis ⊢
      rw [List.cons_append, List.takeWhile_cons, List.takeWhile_cons]
      split
      · rename_i differs
        rcases List.mem_cons.mp member with rfl | inside
        · exact absurd rfl (of_decide_eq_true differs)
        · rw [inductionHypothesis inside]
      · rfl

private theorem earlier_append_cons
    (fresh : ∀ other ∈ files, other.path ≠ file.path)
    (rest : List File) : earlier (files ++ file :: rest) file.path = files := by
  unfold earlier
  rw [List.takeWhile_append_of_pos fun other member =>
    decide_eq_true (fresh other member), List.takeWhile_cons_of_neg (by simp),
    List.append_nil]

/-- The cached file is the last one that went into a buffer. -/
theorem remembered_split (cached : files.foldl File.remember none = some file) :
    ∃ front back, files = front ++ file :: back ∧ ¬ file.IsEager ∧
      ∀ other ∈ back, other.IsEager := by
  induction files using List.reverseRecOn with
  | nil => exact absurd cached (by simp)
  | append_singleton files last inductionHypothesis =>
      rw [List.foldl_append, List.foldl_cons, List.foldl_nil,
        File.remember] at cached
      split at cached
      · rename_i isEager
        obtain ⟨front, back, split, large, rest⟩ := inductionHypothesis cached
        refine ⟨front, back ++ [last], by simp [split], large, ?_⟩
        intro other member
        rcases List.mem_append.mp member with old | new
        · exact rest other old
        · exact List.mem_singleton.mp new ▸ isEager
      · rename_i large
        obtain rfl := Option.some.inj cached
        exact ⟨files, [], rfl, large, fun other member =>
          absurd member List.not_mem_nil⟩

/-- The connection to the server of the cached file is intact. -/
theorem not_breaks_of_remembered (fillable : Fillable numServers files)
    (cached : files.foldl File.remember none = some file)
    (inside : ¬ file.Overflows) :
    ¬ Breaks numServers files (selectServer numServers file.path) := by
  obtain ⟨front, back, rfl, large, rest⟩ := remembered_split cached
  have intact := fillable.settable.2
  rw [if_neg large] at intact
  rintro ⟨other, member, same, overflows⟩
  rcases List.mem_append.mp member with before | later
  · exact intact ⟨other, before, same, overflows⟩
  · rcases List.mem_cons.mp later with rfl | after
    · exact inside overflows
    · exact overflows.1 (rest other after)

theorem mem_of_remembered (cached : files.foldl File.remember none = some file) :
    file ∈ files := by
  obtain ⟨front, back, rfl, _⟩ := remembered_split cached
  simp

end Files

/-! ## The ledger -/

/-- What the ledger shows after the files were set. -/
structure Leaves (numServers : Nat) (files : List File) (ledger : Ledger) :
    Prop where
  broken : ∀ id, ledger.broken id = true ↔ Breaks numServers files id
  held : ∀ file ∈ files,
    ledger.held (selectServer numServers file.path) file.path =
      file.left numServers (earlier files file.path)
  missing : ∀ id key, (∀ file ∈ files, file.path ≠ key) →
    ledger.held id key = none
  isCached : ledger.cached = (files.foldl File.remember none).map fun file =>
    (selectServer numServers file.path, file.path)
  length : ∀ file, files.foldl File.remember none = some file →
    ledger.cachedLength = file.length

namespace Leaves

variable {numServers : Nat} {files : List File} {ledger : Ledger}
  {file : File} {key : CString}

theorem init : Leaves numServers [] Ledger.init :=
  ⟨fun _ => by simp [Ledger.init, Breaks], fun _ member => absurd member
    List.not_mem_nil, fun _ _ _ => rfl, rfl, fun _ same => absurd same (by simp)⟩

theorem isCached_iff (leaves : Leaves numServers files ledger) :
    ledger.isCached key = true ↔
      (files.foldl File.remember none).map File.path = some key := by
  unfold Ledger.isCached
  rw [leaves.isCached]
  cases files.foldl File.remember none with
  | none => simp
  | some file => simp

theorem usable (leaves : Leaves numServers files ledger)
    (nonempty : key ≠ CString.empty) :
    ledger.Usable (selectServer numServers key) key := by
  unfold Ledger.Usable
  rw [leaves.isCached]
  cases files.foldl File.remember none with
  | none => exact nonempty
  | some file => exact fun same => congrArg (selectServer numServers) same

/-- A path that is new is not cached. -/
private theorem isCached_false (leaves : Leaves numServers files ledger)
    (fresh : ∀ other ∈ files, other.path ≠ key) :
    ledger.isCached key = false := by
  rw [Bool.eq_false_iff, ne_eq, leaves.isCached_iff]
  intro same
  obtain ⟨other, isCached, isKey⟩ := Option.map_eq_some_iff.mp same
  exact fresh other (mem_of_remembered isCached) isKey

theorem broken_false (leaves : Leaves numServers files ledger) {id : Nat} :
    ledger.broken id = false ↔ ¬ Breaks numServers files id := by
  rw [← leaves.broken, Bool.not_eq_true]

/-- One more file. -/
private theorem put (leaves : Leaves numServers files ledger)
    (fresh : ∀ other ∈ files, other.path ≠ file.path) {ledger' : Ledger}
    (broken : ∀ id, ledger'.broken id = true ↔ ledger.broken id = true ∨
      (selectServer numServers file.path = id ∧ file.Overflows))
    (here : ledger'.held (selectServer numServers file.path) file.path =
      file.left numServers files)
    (elsewhere : ∀ id key, key ≠ file.path →
      ledger'.held id key = ledger.held id key)
    (isCached : ledger'.cached = (File.remember
      (files.foldl File.remember none) file).map fun file =>
        (selectServer numServers file.path, file.path))
    (length : ledger'.cachedLength =
      if file.IsEager then ledger.cachedLength else file.length) :
    Leaves numServers (files ++ [file]) ledger' := by
  refine ⟨fun id => ?_, ?_, ?_, ?_, ?_⟩
  · rw [broken, leaves.broken, breaks_append_singleton]
  · intro other member
    rcases List.mem_append.mp member with old | new
    · rw [elsewhere _ _ (fresh other old), leaves.held other old,
        earlier_append_of_mem old]
    · rw [List.mem_singleton.mp new, here, earlier_append_cons fresh]
  · intro id key absent
    rw [elsewhere _ _ fun same => absent file (by simp) same.symm]
    exact leaves.missing id key fun other member =>
      absent other (List.mem_append_left _ member)
  · rw [isCached, List.foldl_append]
    rfl
  · intro other same
    rw [List.foldl_append, List.foldl_cons, List.foldl_nil,
      File.remember] at same
    rw [length]
    split at same
    · rename_i isEager
      rw [if_pos isEager]
      exact leaves.length other same
    · rename_i large
      rw [if_neg large]
      obtain rfl := Option.some.inj same
      rfl

/-- `kv_set` of a new file that is small. -/
private theorem set_eager (leaves : Leaves numServers files ledger)
    (fresh : ∀ other ∈ files, other.path ≠ file.path)
    (isEager : file.IsEager)
    (fits : 12 + (file.path.length + 1) + file.length ≤ eagerProtocolLimit) :
    ∃ ret ledger', ledger.set 0 (selectServer numServers file.path) file.path
        file.contents file.length = some (ret, ledger') ∧
      Leaves numServers (files ++ [file]) ledger' := by
  have uncached := leaves.isCached_false fresh
  have still : ledger.invalidate file.path = ledger := by
    unfold Ledger.invalidate
    rw [uncached]
    rfl
  have remembers : File.remember (files.foldl File.remember none) file =
      files.foldl File.remember none := if_pos isEager
  have inside : ¬ file.Overflows := fun overflows => overflows.1 isEager
  have cached := leaves.isCached
  rw [← remembers] at cached
  unfold Ledger.set
  rw [if_pos (file.isEager_length.mpr isEager)]
  simp only [still, Nat.add_zero, if_pos fits]
  by_cases broken : ledger.broken (selectServer numServers file.path) = true
  · have isLeft : file.left numServers files = none := by
      rw [File.left, if_pos isEager, if_pos ((leaves.broken _).mp broken)]
    rw [if_pos broken]
    refine ⟨_, _, rfl, leaves.put fresh (by simp [inside]) ?_
      (fun _ _ _ => rfl) cached (if_pos isEager).symm⟩
    rw [isLeft]
    exact leaves.missing _ _ fresh
  · have isLeft : file.left numServers files =
        some (.inline (file.contents.slice 0 file.length)) := by
      rw [File.left, if_pos isEager, if_neg fun breaks =>
        broken ((leaves.broken _).mpr breaks)]
    rw [if_neg broken]
    refine ⟨_, _, rfl, leaves.put fresh (by simp [inside]) ?_ ?_ cached
      (if_pos isEager).symm⟩
    · rw [isLeft, Ledger.held_put_self]
    · intro id key different
      exact Ledger.held_put_other _ fun both => different both.2

/-- `kv_set` of a new file that is large. -/
private theorem set_large (leaves : Leaves numServers files ledger)
    (fresh : ∀ other ∈ files, other.path ≠ file.path)
    (large : ¬ file.IsEager)
    (short : file.path.length + 1 + sizeofPacket ≤ eagerProtocolLimit)
    (intact : ledger.broken (selectServer numServers file.path) = false) :
    ∃ ret ledger', ledger.set 0 (selectServer numServers file.path) file.path
        file.contents file.length = some (ret, ledger') ∧
      Leaves numServers (files ++ [file]) ledger' := by
  have uncached := leaves.isCached_false fresh
  have length : (file.length + 0) % unsignedRange = file.length :=
    Nat.mod_eq_of_lt file.length_lt
  have empty : ledger.contents (selectServer numServers file.path) file.path =
      Memory.zero := by
    unfold Ledger.contents
    rw [leaves.missing _ _ fresh]
  have remembers : File.remember (files.foldl File.remember none) file =
      some file := if_neg large
  unfold Ledger.set
  rw [if_neg (file.isEager_length.not.mpr large), if_neg (by simp [uncached]),
    length, if_pos ⟨intact, short⟩, empty]
  by_cases small : file.length ≤ maxTestSize
  · have inside : ¬ file.Overflows := fun overflows =>
      absurd small (not_le.mpr overflows.2)
    have isLeft : file.left numServers files = some (.buffer file.length
        (Memory.zero.copy 0 file.length file.contents)) := by
      rw [File.left, if_neg large, if_pos small]
    have intact' : ((ledger.put (selectServer numServers file.path) file.path
        (.buffer file.length Memory.zero)).cache
          (selectServer numServers file.path) file.path file.length).broken
            (selectServer numServers file.path) = false := intact
    simp only [Ledger.write_of_fits intact' small]
    refine ⟨_, _, rfl, leaves.put fresh (by simp [inside, Ledger.cache]) ?_ ?_
      (by rw [remembers]; rfl) (if_neg large).symm⟩
    · rw [isLeft, Ledger.held_put_self]
      simp [Ledger.sentLength, Ledger.contents, Ledger.cache]
    · intro id key different
      rw [Ledger.held_put_other _ fun both => different both.2]
      exact Ledger.held_put_other _ fun both => different both.2
  · have overflows : file.Overflows := ⟨large, not_le.mp small⟩
    have isLeft : file.left numServers files =
        some (.buffer file.length Memory.zero) := by
      rw [File.left, if_neg large, if_neg small]
    simp only [Ledger.write, small, and_false, if_false]
    refine ⟨_, _, rfl, leaves.put fresh (fun id => ?_) ?_ ?_
      (by rw [remembers]; rfl) (if_neg large).symm⟩
    · by_cases same : id = selectServer numServers file.path
      · exact iff_of_true (by simp [Ledger.breakLink, same])
          (Or.inr ⟨same.symm, overflows⟩)
      · simp [Ledger.breakLink, Ledger.cache, same, Ne.symm same]
    · rw [isLeft]
      exact Ledger.held_put_self _
    · intro id key different
      exact Ledger.held_put_other _ fun both => different both.2

/-- `kv_set` of a new file returns exactly if it is settable. -/
private theorem set (leaves : Leaves numServers files ledger)
    (fresh : ∀ other ∈ files, other.path ≠ file.path)
    (short : file.path.length + 1 + sizeofPacket ≤ eagerProtocolLimit) :
    (¬ Settable numServers files file ∧
      ledger.set 0 (selectServer numServers file.path) file.path
        file.contents file.length = none) ∨
    (Settable numServers files file ∧
      ∃ ret ledger', ledger.set 0 (selectServer numServers file.path) file.path
          file.contents file.length = some (ret, ledger') ∧
        Leaves numServers (files ++ [file]) ledger') := by
  by_cases isEager : file.IsEager
  · by_cases fits :
        12 + (file.path.length + 1) + file.length ≤ eagerProtocolLimit
    · exact Or.inr ⟨⟨short, (if_pos isEager).symm ▸ fits⟩,
        leaves.set_eager fresh isEager fits⟩
    · refine Or.inl ⟨fun settable => fits ?_, ?_⟩
      · have both := settable.2
        rwa [if_pos isEager] at both
      · unfold Ledger.set
        rw [if_pos (file.isEager_length.mpr isEager)]
        simp only [Nat.add_zero, if_neg fits]
  · by_cases intact : ledger.broken (selectServer numServers file.path) = false
    · exact Or.inr ⟨⟨short, (if_neg isEager).symm ▸ leaves.broken_false.mp intact⟩,
        leaves.set_large fresh isEager short intact⟩
    · refine Or.inl ⟨fun settable => intact ?_, ?_⟩
      · have both := settable.2
        rw [if_neg isEager] at both
        exact leaves.broken_false.mpr both
      · unfold Ledger.set
        rw [if_neg (file.isEager_length.not.mpr isEager),
          if_neg (by simp [leaves.isCached_false fresh]),
          if_neg fun both => intact both.1]

end Leaves

/-! ## The fill -/

section Fill

variable {mayCrash : Prop} {numServers : Nat} {files : List File}
  {ledger : Ledger} {client : Client} {a : Atomic}

/-- `dkv_set` of a new file returns if it is settable, and else the process
ends. -/
private theorem achieves_dkvSet {file : File} (positive : 0 < numServers)
    (small : numServers < unsignedRange) (tracks : Tracks ledger client a)
    (leaves : Leaves numServers files ledger)
    (nonempty : file.path ≠ CString.empty)
    (fresh : ∀ other ∈ files, other.path ≠ file.path)
    (crash : ¬ Settable numServers files file → mayCrash) :
    Achieves False mayCrash
      (fun result a' => Settable numServers files file ∧
        ∃ ledger', Tracks ledger' result.2 a' ∧
          Leaves numServers (files ++ [file]) ledger')
      (dkvSet numServers file.path file.contents file.size client) a := by
  refine wp_bind (wp_mono ?_ (achieves_findServer tracks positive small
    fun long => crash fun settable => absurd settable.1 (not_le.mpr long)))
  rintro ⟨server, client'⟩ a' ⟨selected, tracks', short⟩
  simp only at selected tracks'
  subst selected
  have keyLength : file.path.length < unsignedRange := by
    have bound : eagerProtocolLimit < unsignedRange := by decide
    omega
  have allowed : (Call.set 0 (selectServer numServers file.path) file.path
      file.contents file.length).Allowed False mayCrash ledger := by
    refine ⟨⟨keyLength, Or.inr (leaves.usable nonempty)⟩, fun crashes => ?_,
      False.elim⟩
    rcases leaves.set fresh short with ⟨fails, _⟩ | ⟨_, ret, ledger', computed, _⟩
    · exact crash fails
    · exact absurd (crashes.symm.trans computed) (by simp)
  unfold kvSet
  rw [← File.length]
  refine wp_mono ?_ (achieves_set tracks' allowed)
  rintro ⟨ret, client''⟩ a'' ⟨⟨ledger', returned⟩, tracks''⟩
  rcases leaves.set fresh short with
    ⟨_, fails⟩ | ⟨settable, ret', after, computed, leaves'⟩
  · exact absurd (fails.symm.trans returned) (by simp)
  · simp only [Call.after, computed] at tracks''
    exact ⟨settable, after, tracks'', leaves'⟩

/-- The fill returns if the files are fillable, and else the process ends. -/
theorem achieves_recursiveFillKv (positive : 0 < numServers)
    (small : numServers < unsignedRange) (rest : List File)
    (tracks : Tracks ledger client a)
    (leaves : Leaves numServers files ledger)
    (nonempty : ∀ file ∈ rest, file.path ≠ CString.empty)
    (distinct : ((files ++ rest).map File.path).Nodup)
    (crash : ¬ FillableAfter numServers files rest → mayCrash) :
    Achieves False mayCrash
      (fun client a' => FillableAfter numServers files rest ∧
        ∃ ledger', Tracks ledger' client a' ∧
          Leaves numServers (files ++ rest) ledger')
      (recursiveFillKv numServers rest client) a := by
  induction rest generalizing files ledger client a with
  | nil =>
      rw [List.append_nil]
      exact achieves_done ⟨trivial, ledger, tracks, leaves⟩
  | cons file rest inductionHypothesis =>
      have apart := distinct
      rw [List.map_append, List.map_cons, List.nodup_append] at apart
      have fresh : ∀ other ∈ files, other.path ≠ file.path :=
        fun other member => apart.2.2 _ (List.mem_map_of_mem member) _
          (List.mem_cons_self ..)
      refine wp_bind (wp_mono ?_ (achieves_dkvSet positive small tracks leaves
        (nonempty file (List.mem_cons_self ..)) fresh
        fun fails => crash fun fillable => fails fillable.1))
      rintro ⟨ret, client'⟩ a' ⟨settable, ledger', tracks', leaves'⟩
      have regroup : files ++ file :: rest = (files ++ [file]) ++ rest := by
        simp
      rw [regroup] at distinct ⊢
      refine wp_mono (fun client a both => ⟨⟨settable, both.1⟩, both.2⟩)
        (inductionHypothesis tracks' leaves'
          (fun other member => nonempty other (List.mem_cons_of_mem _ member))
          distinct fun fails => crash fun fillable => fails fillable.2)

end Fill

end RdmaKv.Nweb
