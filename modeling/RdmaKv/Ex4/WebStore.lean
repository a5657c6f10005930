import RdmaKv.Ex4.WebFill

/-!
# The store that `kv_get` reads

What is held of a file under its path, in the entry or in a buffer, and what
`kv_get` makes of it, from the cache or from the server.  If every file is
accepted, the fill leaves all of them like that.
-/

namespace RdmaKv.Nweb

open ByteMemory Interaction

namespace File

/-- `kv_set` accepts the file. -/
structure Accepted (file : File) : Prop where
  nonempty : file.path ≠ CString.empty
  short : file.path.length + 1 + sizeofPacket ≤ eagerProtocolLimit
  small : file.size ≤ maxTestSize

def kept (file : File) : Kept :=
  if file.IsEager then .inline (file.contents.slice 0 file.size)
  else .buffer file.size (Memory.zero.copy 0 file.size file.contents)

theorem length_of_small {file : File} (small : file.size ≤ maxTestSize) :
    file.length = file.size := by
  have bound : maxTestSize < unsignedRange := by decide
  exact Nat.mod_eq_of_lt (Nat.lt_of_le_of_lt small bound)

theorem not_overflows_of_small {file : File}
    (small : file.size ≤ maxTestSize) : ¬ file.Overflows := fun overflows =>
  absurd small (not_le.mpr (length_of_small small ▸ overflows.2))

/-- The eager packet of a small file has room for it. -/
private theorem fits_of_small {file : File} (small : file.size ≤ maxTestSize)
    (short : file.path.length + 1 + sizeofPacket ≤ eagerProtocolLimit)
    (isEager : file.IsEager) :
    12 + (file.path.length + 1) + file.length ≤ eagerProtocolLimit := by
  have whole := isEager
  unfold File.IsEager Ledger.IsEager at whole
  rw [Nat.mod_eq_of_lt] at whole
  · rw [length_of_small small]
    simp only [sizeofPacket] at whole
    omega
  · simp only [sizeofPacket, eagerProtocolLimit, maxTestSize,
      unsignedRange] at short small ⊢
    omega

/-- A small file that is not lost. -/
theorem left_of_small {file : File} (small : file.size ≤ maxTestSize)
    {numServers : Nat} {front : List File}
    (stays : file.IsEager →
      ¬ Breaks numServers front (selectServer numServers file.path)) :
    file.left numServers front = some file.kept := by
  unfold left kept
  split
  · rename_i isEager
    rw [if_neg (stays isEager), length_of_small small]
  · rw [length_of_small small, if_pos small]

end File

private theorem not_breaks_of_accepted {numServers : Nat} {files : List File}
    (accepted : ∀ file ∈ files, file.Accepted) (id : Nat) :
    ¬ Breaks numServers files id := by
  rintro ⟨file, member, _, overflows⟩
  exact File.not_overflows_of_small (accepted file member).small overflows

/-- Accepted files are fillable. -/
private theorem fillableAfter_of_accepted {numServers : Nat}
    {front rest : List File}
    (accepted : ∀ file ∈ front ++ rest, file.Accepted) :
    FillableAfter numServers front rest := by
  induction rest generalizing front with
  | nil => trivial
  | cons file rest inductionHypothesis =>
      obtain ⟨_, short, small⟩ := accepted file (by simp)
      refine ⟨⟨short, ?_⟩, inductionHypothesis (by simpa using accepted)⟩
      split
      · rename_i isEager
        exact File.fits_of_small small short isEager
      · exact not_breaks_of_accepted
          (fun other member => accepted other (List.mem_append_left _ member)) _

/-! ## One file -/

/-- The ledger holds a file on a connection that is intact, and if it is the
cached one, its length. -/
structure Holds (numServers : Nat) (cached : Option File) (ledger : Ledger)
    (file : File) : Prop where
  intact : ledger.broken (selectServer numServers file.path) = false
  held : ledger.held (selectServer numServers file.path) file.path =
    some file.kept
  isCached_iff : ledger.isCached file.path = true ↔
    cached.map File.path = some file.path
  cachedFile : cached.map File.path = some file.path →
    ¬ file.IsEager ∧ ledger.cachedLength = file.size

namespace Holds

variable {numServers : Nat} {cached : Option File} {ledger : Ledger}
  {file : File}

private theorem isCached_of_miss (holds : Holds numServers cached ledger file)
    (miss : cached.map File.path ≠ some file.path) :
    ledger.isCached file.path = false :=
  Bool.eq_false_iff.mpr fun hit => miss (holds.isCached_iff.mp hit)

/-- From the entry. -/
theorem get_eager (holds : Holds numServers cached ledger file)
    (accepted : file.Accepted) (isEager : file.IsEager) :
    ledger.get (selectServer numServers file.path) file.path =
      (some ⟨0, some (file.contents.slice 0 file.size ++ [0]), some file.size⟩,
        ledger) := by
  have held := holds.held
  rw [File.kept, if_pos isEager] at held
  have miss : cached.map File.path ≠ some file.path :=
    fun hit => (holds.cachedFile hit).1 isEager
  rw [Ledger.get_miss accepted.short holds.intact (holds.isCached_of_miss miss),
    Ledger.fetch_inline held, Memory.length_slice]

/-- Through the cache.  The length is not stored. -/
theorem get_cached (holds : Holds numServers cached ledger file)
    (accepted : file.Accepted)
    (hit : cached.map File.path = some file.path) :
    ledger.get (selectServer numServers file.path) file.path =
      (some ⟨0, some ((Memory.zero.copy 0 file.size
        (Memory.zero.copy 0 file.size file.contents)).slice 0
          (file.size + 1)), none⟩, ledger) := by
  obtain ⟨large, length⟩ := holds.cachedFile hit
  have held := holds.held
  rw [File.kept, if_neg large] at held
  have isContents : ledger.contents (selectServer numServers file.path)
      file.path = Memory.zero.copy 0 file.size file.contents := by
    unfold Ledger.contents
    rw [held]
  have top : maxTestSize + 1 < unsignedRange := by decide
  have small := accepted.small
  have size : (file.size + 1) % unsignedRange = file.size + 1 :=
    Nat.mod_eq_of_lt (by omega)
  have isHit := holds.isCached_iff.mpr hit
  rw [Ledger.get_hit accepted.short holds.intact isHit, isContents, length,
    size]
  simp only [Call.InBounds, if_pos isHit, length, size]
  exact ⟨small, Nat.le_succ _⟩

/-- From the buffer whose address the server sends. -/
theorem get_fetched (holds : Holds numServers cached ledger file)
    (accepted : file.Accepted)
    (miss : cached.map File.path ≠ some file.path)
    (large : ¬ file.IsEager) (room : file.size < maxTestSize) :
    ledger.get (selectServer numServers file.path) file.path =
      (some ⟨0, some ((Memory.zero.copy 0 (file.size + 1)
        (Memory.zero.copy 0 file.size file.contents)).slice 0
          (file.size + 1)), some file.size⟩,
        ledger.cache (selectServer numServers file.path) file.path
          file.size) := by
  have held := holds.held
  rw [File.kept, if_neg large] at held
  have top : maxTestSize + 1 < unsignedRange := by decide
  have size : (file.size + 1) % unsignedRange = file.size + 1 :=
    Nat.mod_eq_of_lt (by omega)
  rw [Ledger.get_miss accepted.short holds.intact (holds.isCached_of_miss miss),
    Ledger.fetch_buffer holds.intact held (by rw [size]; exact room), size]

/-- The buffer is full: the read asks for one byte more than there is. -/
theorem get_full (holds : Holds numServers cached ledger file)
    (accepted : file.Accepted)
    (miss : cached.map File.path ≠ some file.path)
    (large : ¬ file.IsEager) (full : file.size = maxTestSize) :
    (ledger.get (selectServer numServers file.path) file.path).1 =
      some ⟨0, some (Memory.zero.slice 0 (file.size + 1)), some file.size⟩ := by
  have held := holds.held
  rw [File.kept, if_neg large] at held
  have top : maxTestSize + 1 < unsignedRange := by decide
  have size : (file.size + 1) % unsignedRange = file.size + 1 :=
    Nat.mod_eq_of_lt (by omega)
  have outside : ¬ (file.size + 1 ≤ maxTestSize) := by
    omega
  rw [Ledger.get_miss accepted.short holds.intact (holds.isCached_of_miss miss)]
  unfold Ledger.fetch
  simp only [held, size, Ledger.read, outside, false_and, and_false, if_false]

end Holds

/-! ## All files -/

/-- The ledger holds the files, and one of those in a buffer is cached. -/
structure Offers (numServers : Nat) (files : List File)
    (cached : Option File) (ledger : Ledger) : Prop where
  intact : ∀ id, ledger.broken id = false
  held : ∀ file ∈ files,
    ledger.held (selectServer numServers file.path) file.path = some file.kept
  missing : ∀ id key, (∀ file ∈ files, file.path ≠ key) →
    ledger.held id key = none
  isCached : ledger.cached = cached.map fun file =>
    (selectServer numServers file.path, file.path)
  cachedFile : ∀ file, cached = some file →
    file ∈ files ∧ ¬ file.IsEager ∧ ledger.cachedLength = file.size

/-- The fill of accepted files. -/
theorem Leaves.offers {numServers : Nat} {files : List File} {ledger : Ledger}
    (leaves : Leaves numServers files ledger)
    (accepted : ∀ file ∈ files, file.Accepted) :
    Offers numServers files (files.foldl File.remember none) ledger := by
  refine ⟨fun id => ?_, fun file member => ?_, leaves.missing, leaves.isCached,
    fun file cached => ?_⟩
  · exact leaves.broken_false.mpr (not_breaks_of_accepted accepted id)
  · rw [leaves.held file member]
    refine File.left_of_small (accepted file member).small fun _ => ?_
    exact not_breaks_of_accepted (fun other early => accepted other
      ((List.takeWhile_prefix _).subset early)) _
  · obtain ⟨front, back, split, large, _⟩ := remembered_split cached
    have member := mem_of_remembered cached
    exact ⟨member, large, (leaves.length file cached).trans
      (File.length_of_small (accepted file member).small)⟩

namespace Offers

variable {numServers : Nat} {files : List File} {cached : Option File}
  {ledger : Ledger} {file : File} {key : CString}

private theorem isCached_iff (offers : Offers numServers files cached ledger) :
    ledger.isCached key = true ↔ cached.map File.path = some key := by
  unfold Ledger.isCached
  rw [offers.isCached]
  cases cached with
  | none => simp
  | some file => simp

theorem usable (offers : Offers numServers files cached ledger)
    (nonempty : key ≠ CString.empty) :
    ledger.Usable (selectServer numServers key) key := by
  unfold Ledger.Usable
  rw [offers.isCached]
  cases cached with
  | none => exact nonempty
  | some file => exact fun same => congrArg (selectServer numServers) same

/-- What is cached under a path is the file itself, as far as it is held. -/
private theorem cached_eq (offers : Offers numServers files cached ledger)
    (member : file ∈ files) (hit : cached.map File.path = some file.path) :
    ¬ file.IsEager ∧ ledger.cachedLength = file.size := by
  obtain ⟨other, isCached, samePath⟩ := Option.map_eq_some_iff.mp hit
  obtain ⟨otherMember, large, length⟩ := offers.cachedFile other isCached
  have holds := offers.held other otherMember
  rw [samePath, offers.held file member] at holds
  have isBuffer : other.kept = .buffer other.size
      (Memory.zero.copy 0 other.size other.contents) := if_neg large
  rw [isBuffer] at holds
  unfold File.kept at holds
  split at holds
  · exact absurd (Option.some.inj holds) (by simp)
  · rename_i notEager
    exact ⟨notEager, length.trans (Kept.buffer.inj (Option.some.inj holds)).1.symm⟩

theorem holds (offers : Offers numServers files cached ledger)
    (member : file ∈ files) : Holds numServers cached ledger file :=
  ⟨offers.intact _, offers.held file member, offers.isCached_iff,
    offers.cached_eq member⟩

/-- After a file was fetched it is cached. -/
theorem fetched (offers : Offers numServers files cached ledger)
    (member : file ∈ files) (large : ¬ file.IsEager) :
    Offers numServers files (some file)
      (ledger.cache (selectServer numServers file.path) file.path
        file.size) := by
  refine ⟨offers.intact, offers.held, offers.missing, rfl, ?_⟩
  intro other same
  obtain rfl := Option.some.inj same
  exact ⟨member, large, rfl⟩

end Offers

/-- The fill of accepted files returns and leaves all of them. -/
theorem achieves_fill {mayCrash : Prop} {numServers : Nat} {files : List File}
    (positive : 0 < numServers) (small : numServers < unsignedRange)
    (accepted : ∀ file ∈ files, file.Accepted)
    (distinct : (files.map File.path).Nodup) (buf : Conn → Memory) :
    Achieves False mayCrash
      (fun client a => ∃ ledger, Tracks ledger client a ∧
        Offers numServers files (files.foldl File.remember none) ledger)
      (recursiveFillKv numServers files (Client.init buf)) Atomic.init := by
  refine wp_mono ?_ (achieves_recursiveFillKv positive small files
    (tracks_init buf) Leaves.init
    (fun file member => (accepted file member).nonempty)
    (by simpa using distinct)
    fun fails => absurd (fillableAfter_of_accepted (by simpa using accepted))
      fails)
  rintro client a ⟨_, ledger, tracks, leaves⟩
  exact ⟨ledger, tracks, leaves.offers accepted⟩

end RdmaKv.Nweb
