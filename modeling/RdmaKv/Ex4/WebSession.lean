import RdmaKv.Ex4.WebStore

/-!
# What nweb writes

Between two requests the process keeps the static buffer and the client's
cache.  A `Session` follows both and says what is written in answer to a
request, as long as its file is stored.
-/

namespace RdmaKv.Nweb

open ByteMemory Interaction

/-! ## The reply for a file -/

namespace File

/-- The `Content-Length` of the reply.  From the cache it is what `file_length`
held before. -/
def lengthFor (cached : Option File) (fresh : Uninitialised) (file : File) :
    Nat :=
  if cached.map File.path = some file.path then fresh.fileLength else file.size

def body (cached : Option File) (fresh : Uninitialised) (file : File) :
    List UInt8 :=
  if cached.map File.path = some file.path then
    (fresh.heap.copy 0 (file.size + 1)
      (Memory.zero.copy 0 file.size file.contents)).slice 0 fresh.fileLength
  else if file.IsEager ∨ file.size < maxTestSize then
    file.contents.slice 0 file.size
  else List.replicate file.size 0

def reply (cached : Option File) (fresh : Uninitialised) (fstr : String)
    (file : File) : List UInt8 :=
  header (file.lengthFor cached fresh) fstr ++ file.body cached fresh

end File

def stocked (files : List File) (key : CString) : Option File :=
  files.find? fun file => file.path = key

/-- A block that was copied to the heap. -/
private theorem slice_block (heap contents : Memory) {size count : Nat}
    (inside : count ≤ size) :
    (heap.copy 0 (contents.slice 0 size).length
      (Memory.ofList (contents.slice 0 size))).slice 0 count =
        contents.slice 0 count := by
  refine Memory.slice_congr fun i _ upper => ?_
  rw [Memory.length_slice, Memory.copy_inside _ _ (Nat.zero_le i) (by omega),
    Memory.ofList, Nat.sub_zero, Memory.getD_slice _ _ (by omega), Nat.zero_add]

private theorem copy_block (heap contents : Memory) (size : Nat) :
    heap.copy 0 (contents.slice 0 size).length
      (Memory.ofList (contents.slice 0 size)) = heap.copy 0 size contents := by
  funext i
  rw [Memory.length_slice]
  unfold Memory.copy
  split
  · rw [Memory.ofList, Memory.getD_slice _ _ (by omega), Nat.zero_add]
  · rfl

/-- The bytes of a file that were copied into cleared blocks. -/
private theorem slice_copied (contents : Memory) {size count : Nat}
    (covers : size ≤ count) :
    (Memory.zero.copy 0 count (Memory.zero.copy 0 size contents)).slice 0 size =
      contents.slice 0 size := by
  refine Memory.slice_congr fun i _ upper => ?_
  rw [Memory.copy_inside _ _ (Nat.zero_le i) (by omega), Nat.sub_zero,
    Memory.copy_inside _ _ (Nat.zero_le i) (by omega), Nat.sub_zero]

private theorem copy_copy (contents : Memory) (size : Nat) :
    Memory.zero.copy 0 size (Memory.zero.copy 0 size contents) =
      Memory.zero.copy 0 size contents := by
  funext i
  unfold Memory.copy
  split
  · rename_i inside
    simp only [Nat.sub_zero, inside, and_self, if_true]
  · rfl

private theorem slice_terminated (contents : Memory) (size : Nat) :
    contents.slice 0 size ++ [0] =
      (Memory.zero.copy 0 size contents).slice 0 (size + 1) := by
  have split : (Memory.zero.copy 0 size contents).slice 0 (size + 1) =
      (Memory.zero.copy 0 size contents).slice 0 size ++
        [Memory.zero.copy 0 size contents (0 + size)] := by
    simp [Memory.slice, List.range_succ]
  rw [split, Memory.slice_copy, Memory.copy_outside _ _ (Or.inr le_rfl)]
  rfl

/-- `dkv_get` of a file, and what `web` makes of it. -/
theorem Holds.responds {numServers : Nat} {cached : Option File}
    {ledger : Ledger} {file : File}
    (holds : Holds numServers cached ledger file) (accepted : file.Accepted) :
    ∃ result, (ledger.get (selectServer numServers file.path) file.path).1 =
        some result ∧
      ∀ fresh fstr buffer client,
        respond fresh fstr buffer result client =
          .answered (file.reply cached fresh fstr)
            (buffer.copy 0
              ((header (file.lengthFor cached fresh) fstr).length + 1)
              (Memory.ofList (header (file.lengthFor cached fresh) fstr)))
            client := by
  by_cases hit : cached.map File.path = some file.path
  · rw [holds.get_cached accepted hit]
    refine ⟨_, rfl, fun fresh fstr buffer client => ?_⟩
    simp only [respond, File.reply, File.lengthFor, File.body, if_pos hit,
      Option.getD_none, copy_block, copy_copy]
  by_cases isEager : file.IsEager
  · rw [holds.get_eager accepted isEager]
    refine ⟨_, rfl, fun fresh fstr buffer client => ?_⟩
    simp only [respond, File.reply, File.lengthFor, File.body, if_neg hit,
      isEager, true_or, if_true, Option.getD_some, slice_terminated]
    rw [slice_block _ _ (Nat.le_succ _), Memory.slice_copy]
  by_cases room : file.size < maxTestSize
  · rw [holds.get_fetched accepted hit isEager room]
    refine ⟨_, rfl, fun fresh fstr buffer client => ?_⟩
    simp only [respond, File.reply, File.lengthFor, File.body, if_neg hit,
      room, or_true, if_true, Option.getD_some]
    rw [slice_block _ _ (Nat.le_succ _), slice_copied _ (Nat.le_succ _)]
  · have full : file.size = maxTestSize :=
      Nat.le_antisymm accepted.small (not_lt.mp room)
    rw [holds.get_full accepted hit isEager full]
    refine ⟨_, rfl, fun fresh fstr buffer client => ?_⟩
    simp only [respond, File.reply, File.lengthFor, File.body, if_neg hit,
      isEager, room, or_self, if_false, Option.getD_some]
    have zeros : Memory.zero.slice 0 file.size =
        List.replicate file.size 0 := by
      simp [Memory.slice, Memory.zero]
    rw [slice_block _ _ (Nat.le_succ _), zeros]

/-! ## The session -/

/-- What the process keeps between two requests. -/
structure Session where
  cached : Option File
  buffer : Memory

namespace Session

/-- After a file was sent.  A read that leaves its buffer breaks the
connection. -/
def sent? (s : Session) (buffer : Memory) (file : File) : Option Session :=
  if s.cached.map File.path = some file.path ∨ file.IsEager then
    some ⟨s.cached, buffer⟩
  else if file.size < maxTestSize then some ⟨some file, buffer⟩
  else none

def start (files : List File) : Session where
  cached := files.foldl File.remember none
  buffer := Memory.zero

/-- What is written in answer to a request, unless its file is missing. -/
def reply? (topDir : TopDir) (files : List File) (s : Session)
    (fresh : Uninitialised) (request : List UInt8) : Option (List UInt8) :=
  match checks request s.buffer with
  | none => some (logger .forbidden).1
  | some (buffer, fstr) =>
      (stocked files (topDir.path.append (stringAt buffer 4))).map
        (File.reply s.cached fresh fstr)

/-- The session after a request, if the process goes on with all its
connections. -/
def next? (topDir : TopDir) (files : List File) (s : Session)
    (fresh : Uninitialised) (request : List UInt8) : Option Session :=
  match checks request s.buffer with
  | none => none
  | some (buffer, fstr) =>
      (stocked files (topDir.path.append (stringAt buffer 4))).bind fun file =>
        let reply := header (file.lengthFor s.cached fresh) fstr
        s.sent? (buffer.copy 0 (reply.length + 1) (Memory.ofList reply)) file

def after? (topDir : TopDir) (files : List File) :
    Session → List (Uninitialised × List UInt8) → Option Session
  | s, [] => some s
  | s, (fresh, request) :: requests =>
      (s.next? topDir files fresh request).bind fun s =>
        s.after? topDir files requests

end Session

theorem Session.buffer_of_sent {s s' : Session} {buffer : Memory} {file : File}
    (sent : s.sent? buffer file = some s') : s'.buffer = buffer := by
  unfold Session.sent? at sent
  split at sent
  · obtain rfl := Option.some.inj sent
    rfl
  · split at sent
    · obtain rfl := Option.some.inj sent
      rfl
    · exact absurd sent (by simp)

/-- The ledger follows the session. -/
theorem Offers.goesOn {numServers : Nat} {files : List File} {s s' : Session}
    {ledger : Ledger} {buffer : Memory} {file : File}
    (offers : Offers numServers files s.cached ledger) (member : file ∈ files)
    (accepted : file.Accepted) (sent : s.sent? buffer file = some s') :
    Offers numServers files s'.cached
      (ledger.get (selectServer numServers file.path) file.path).2 := by
  unfold Session.sent? at sent
  by_cases hit : s.cached.map File.path = some file.path
  · rw [if_pos (Or.inl hit)] at sent
    obtain rfl := Option.some.inj sent
    rw [(offers.holds member).get_cached accepted hit]
    exact offers
  by_cases isEager : file.IsEager
  · rw [if_pos (Or.inr isEager)] at sent
    obtain rfl := Option.some.inj sent
    rw [(offers.holds member).get_eager accepted isEager]
    exact offers
  rw [if_neg (not_or.mpr ⟨hit, isEager⟩)] at sent
  split at sent
  · rename_i room
    obtain rfl := Option.some.inj sent
    rw [(offers.holds member).get_fetched accepted hit isEager room]
    exact offers.fetched member isEager
  · exact absurd sent (by simp)

/-! ## One request -/

section Web

variable {numServers : Nat} {files : List File} {cached : Option File}
  {ledger : Ledger} {client : Client} {a : Atomic} {topDir : TopDir}
  {mayCrash : Prop}

theorem stocked_mem {key : CString} {file : File}
    (found : stocked files key = some file) :
    file ∈ files ∧ file.path = key :=
  ⟨List.mem_of_find?_eq_some found, by
    simpa using List.find?_some found⟩

theorem stocked_none {key : CString} :
    stocked files key = none ↔ ∀ file ∈ files, file.path ≠ key := by
  simp [stocked]

/-- `dkv_get` does what the ledger says. -/
theorem achieves_dkvGet {key : CString} (positive : 0 < numServers)
    (small : numServers < unsignedRange) (tracks : Tracks ledger client a)
    (usable : ledger.Usable (selectServer numServers key) key)
    (short : key.length < unsignedRange)
    (long : key.length + 1 + sizeofPacket > eagerProtocolLimit → mayCrash)
    (crash : (ledger.get (selectServer numServers key) key).1 = none →
      mayCrash) :
    Achieves False mayCrash
      (fun result a' =>
        (∀ known, (ledger.get (selectServer numServers key) key).1 =
          some known → result.1 = known) ∧
        Tracks (ledger.get (selectServer numServers key) key).2 result.2 a')
      (dkvGet numServers key client) a := by
  refine wp_bind (wp_mono ?_ (achieves_findServer tracks positive small long))
  rintro ⟨server, client'⟩ a' ⟨selected, tracks', _⟩
  simp only at selected tracks'
  subst selected
  exact wp_mono (fun result a'' both => both)
    (achieves_get tracks' ⟨⟨short, usable⟩, crash, False.elim⟩)

private theorem length_string_le (memory : Memory) (offset room : Nat) :
    ((memory.string? offset room).getD CString.empty).length ≤ room := by
  cases found : memory.string? offset room with
  | none => exact Nat.zero_le _
  | some text => exact (Memory.string?_eq_some_iff.mp found).1.le

/-- The key of a request. -/
theorem key_lt (topDir : TopDir) (buffer : Memory) :
    topDir.path.append (stringAt buffer 4) ≠ CString.empty ∧
      (topDir.path.append (stringAt buffer 4)).length < unsignedRange := by
  have length := length_string_le buffer 4 (bufsize + 1 - 4)
  rw [← stringAt] at length
  have positive : 0 < topDir.path.length := by
    by_contra none
    refine topDir.nonempty (CString.ext ?_)
    exact List.length_eq_zero_iff.mp (Nat.le_zero.mp (not_lt.mp none))
  constructor
  · intro empty
    have same := congrArg CString.length empty
    rw [CString.length_append, CString.length_empty] at same
    omega
  · have fits := topDir.fits
    rw [CString.length_append]
    simp only [pathMax, bufsize, unsignedRange] at fits length ⊢
    omega

/-- What a request has written. -/
def Outcome.written : Outcome → List UInt8
  | .exited written => written
  | .answered written _ _ => written

theorem Outcome.written_exited (written : List UInt8) :
    (Outcome.exited written).written = written := rfl

/-- The process has gone on to a session. -/
def Outcome.Reaches (numServers : Nat) (files : List File) (s : Session)
    (outcome : Outcome) (a : Atomic) : Prop :=
  ∃ client ledger, outcome = .answered outcome.written s.buffer client ∧
    Tracks ledger client a ∧ Offers numServers files s.cached ledger

/-- `web` does what the session says. -/
theorem achieves_web {s : Session} {fresh : Uninitialised}
    {request written : List UInt8} (positive : 0 < numServers)
    (small : numServers < unsignedRange) (tracks : Tracks ledger client a)
    (offers : Offers numServers files s.cached ledger)
    (accepted : ∀ file ∈ files, file.Accepted)
    (answers : s.reply? topDir files fresh request = some written) :
    Achieves False mayCrash
      (fun outcome a' => outcome.written = written ∧
        ∀ s', s.next? topDir files fresh request = some s' →
          outcome.Reaches numServers files s' a')
      (web numServers topDir fresh request s.buffer client) a := by
  unfold web
  unfold Session.reply? at answers
  unfold Session.next?
  cases passes : checks request s.buffer with
  | none =>
      simp only [passes, Option.some.injEq] at answers
      subst answers
      exact achieves_done ⟨Outcome.written_exited _, fun s' next =>
        absurd next (by simp)⟩
  | some pair =>
      obtain ⟨buffer, fstr⟩ := pair
      rw [passes] at answers
      obtain ⟨file, found, rfl⟩ := Option.map_eq_some_iff.mp answers
      obtain ⟨member, isKey⟩ := stocked_mem found
      obtain ⟨nonempty, short⟩ := key_lt topDir buffer
      simp only
      obtain ⟨expected, computed, responds⟩ :=
        (offers.holds member).responds (accepted file member)
      rw [isKey] at computed
      refine wp_bind (wp_mono ?_ (achieves_dkvGet positive small tracks
        (offers.usable nonempty) short ?_ ?_))
      · rintro ⟨result, client'⟩ a' ⟨known, tracks'⟩
        obtain rfl : result = expected := known expected computed
        rw [responds]
        refine achieves_done ⟨rfl, fun s' next => ?_⟩
        simp only [found, Option.bind_some] at next
        rw [← isKey] at tracks'
        refine ⟨client', (ledger.get (selectServer numServers file.path)
          file.path).2, ?_, tracks', ?_⟩
        · rw [Session.buffer_of_sent next, Outcome.written]
        · exact offers.goesOn member (accepted file member) next
      · exact fun long => absurd (isKey ▸ (accepted file member).short)
          (not_le.mpr long)
      · exact fun crashes => absurd (computed.symm.trans crashes) (by simp)

/-! ## Several requests -/

theorem Session.reply_of_next {s s' : Session} {fresh : Uninitialised}
    {request : List UInt8}
    (next : s.next? topDir files fresh request = some s') :
    ∃ written, s.reply? topDir files fresh request = some written := by
  unfold Session.next? at next
  unfold Session.reply?
  split at next
  · exact absurd next (by simp)
  · obtain ⟨file, found, _⟩ := Option.bind_eq_some_iff.mp next
    rw [found]
    exact ⟨_, rfl⟩

/-- If the process goes on after each of the earlier requests, the last one is
answered as the session says. -/
private theorem achieves_acceptLoop (front : List (Uninitialised × List UInt8))
    {s s' : Session} {fresh : Uninitialised} {request written : List UInt8}
    (positive : 0 < numServers) (small : numServers < unsignedRange)
    (tracks : Tracks ledger client a)
    (offers : Offers numServers files s.cached ledger)
    (accepted : ∀ file ∈ files, file.Accepted)
    (goes : s.after? topDir files front = some s')
    (answers : s'.reply? topDir files fresh request = some written) :
    Achieves False mayCrash
      (fun replies _ => replies.length = front.length + 1 ∧
        replies[front.length]? = some written)
      (acceptLoop numServers topDir (front ++ [(fresh, request)]) s.buffer
        client) a := by
  induction front generalizing s ledger client a with
  | nil =>
      obtain rfl := Option.some.inj goes
      refine wp_bind (wp_mono ?_ (achieves_web positive small tracks offers
        accepted answers))
      rintro outcome a' ⟨isWritten, _⟩
      subst isWritten
      cases outcome with
      | exited written => exact achieves_done ⟨rfl, rfl⟩
      | answered written buffer client' => exact achieves_done ⟨rfl, rfl⟩
  | cons first front inductionHypothesis =>
      obtain ⟨firstFresh, firstRequest⟩ := first
      obtain ⟨middle, next, rest⟩ := Option.bind_eq_some_iff.mp goes
      obtain ⟨firstWritten, isReply⟩ := Session.reply_of_next next
      refine wp_bind (wp_mono ?_ (achieves_web positive small tracks offers
        accepted isReply))
      rintro outcome a' ⟨_, reaches⟩
      obtain ⟨client', ledger', isOutcome, tracks', offers'⟩ :=
        reaches middle next
      rw [isOutcome]
      refine wp_bind (wp_mono ?_ (inductionHypothesis tracks' offers' rest))
      rintro replies a'' ⟨length, last⟩
      exact achieves_done ⟨by simp [length], by simpa using last⟩

end Web

/-- `main` fills the servers and then answers. -/
theorem achieves_main {numServers : Nat} {topDir : TopDir} {files : List File}
    {mayCrash : Prop} (front : List (Uninitialised × List UInt8)) {s : Session}
    {fresh : Uninitialised} {request written : List UInt8}
    (positive : 0 < numServers) (small : numServers < unsignedRange)
    (accepted : ∀ file ∈ files, file.Accepted)
    (distinct : (files.map File.path).Nodup)
    (goes : (Session.start files).after? topDir files front = some s)
    (answers : s.reply? topDir files fresh request = some written)
    (buf : Conn → Memory) :
    Achieves False mayCrash
      (fun replies _ => replies.length = front.length + 1 ∧
        replies[front.length]? = some written)
      (main numServers topDir files (front ++ [(fresh, request)]) buf)
      Atomic.init := by
  refine wp_bind (wp_mono ?_ (achieves_fill positive small accepted distinct
    buf))
  rintro client a ⟨ledger, tracks, offers⟩
  have offers : Offers numServers files (Session.start files).cached ledger :=
    offers
  exact achieves_acceptLoop front positive small tracks offers accepted goes
    answers

end RdmaKv.Nweb
