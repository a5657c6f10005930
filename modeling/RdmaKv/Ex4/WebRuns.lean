import RdmaKv.Ex4.WebRequests
import RdmaKv.Ex4.WebSession
import RdmaKv.Ex4.Progress
import RdmaKv.Ex4.Schedule

/-!
# Whether nweb answers right

When the reply to a single request is the file under its length, or that there
is no such file, and when requests in one process do not show in the replies to
later ones.
-/

namespace RdmaKv.Nweb

open ByteMemory Interaction

/-! ## Whether the reply is right -/

/-- The key that a request asks for. -/
def keyOf (topDir : TopDir) (request : List UInt8) : CString :=
  topDir.path.append (urlPath request)

/-- The file that the servers hold under a key.  A small one is lost if the
connection to its server was broken before. -/
def inStore (numServers : Nat) (files : List File) (key : CString) :
    Option File :=
  (stocked files key).filter fun file =>
    decide ¬ (file.IsEager ∧
      Breaks numServers (earlier files key) (selectServer numServers key))

/-- The bytes of the file under a header with their number, or that there is
no such file. -/
def RightReply (numServers : Nat) (topDir : TopDir) (files : List File)
    (request : List UInt8) (fstr : String) (written : List UInt8) : Prop :=
  match inStore numServers files (keyOf topDir request) with
  | some file =>
      written = header file.size fstr ++ file.contents.slice 0 file.size
  | none => written = (logger .notFound).1

/-- The fill returns and the key is stored.  If its file is cached,
`file_length` happens to hold its size; else, if the connection to its server
is broken, `file_length` and the heap happen to hold its size and its bytes;
else, if it is in a buffer, it leaves one byte of it or is zero. -/
def Readable (numServers : Nat) (topDir : TopDir) (files : List File)
    (fresh : Uninitialised) (request : List UInt8) : Prop :=
  Fillable numServers files ∧
    ∃ file, inStore numServers files (keyOf topDir request) = some file ∧
      if (Session.start files).cached.map File.path = some file.path then
        fresh.fileLength = file.size
      else if Breaks numServers files (selectServer numServers file.path) then
        fresh.fileLength = file.size ∧
          fresh.heap.slice 0 file.size = file.contents.slice 0 file.size
      else
        file.IsEager ∨ file.size < maxTestSize ∨
          file.contents.slice 0 file.size = List.replicate file.size 0

/-- The header around the digits of the length. -/
private theorem length_header (fstr : String) :
    ∃ around, ∀ len, (header len fstr).length =
      around + (Nat.toDigits 10 len).length := by
  refine ⟨(bytes "HTTP/1.1 200 OK\nServer: nweb/" ++ bytes (toString version) ++
    bytes ".0\nContent-Length: ").length +
      (bytes "\nConnection: close\nContent-Type: " ++ bytes fstr ++
        bytes "\n\n").length, fun len => ?_⟩
  have digits : (bytes (toString len)).length =
      (Nat.toDigits 10 len).length := by
    rw [bytes, List.length_map, Nat.toString_eq_ofList_toDigits,
      String.toList_ofList]
  rw [header, List.append_assoc _ (bytes fstr), List.append_assoc _ _
    (bytes fstr ++ _), ← List.append_assoc _ (bytes fstr), List.length_append,
    List.length_append, digits, Nat.add_right_comm]

/-- A longer file has no shorter header. -/
private theorem length_header_mono {first second : Nat} (fstr : String)
    (le : first ≤ second) :
    (header first fstr).length ≤ (header second fstr).length := by
  obtain ⟨around, length⟩ := length_header fstr
  rw [length, length]
  refine Nat.add_le_add_left ?_ around
  rw [Nat.length_toDigits_le_iff (by decide) Nat.length_toDigits_pos]
  exact Nat.lt_of_le_of_lt le ((Nat.length_toDigits_le_iff (by decide)
    Nat.length_toDigits_pos).mp le_rfl)

/-- Replies of one length have one `Content-Length`. -/
private theorem header_injective {first second : Nat} {fstr : String}
    {body other : List UInt8} (firstBody : body.length = first)
    (secondBody : other.length = second)
    (same : header first fstr ++ body = header second fstr ++ other) :
    first = second := by
  have lengths := congrArg List.length same
  rw [List.length_append, List.length_append, firstBody, secondBody] at lengths
  rcases Nat.le_total first second with le | le
  · have mono := length_header_mono fstr le
    omega
  · have mono := length_header_mono fstr le
    omega

/-- The reply for a file is right exactly under that condition. -/
theorem File.reply_eq_iff {cached : Option File} {fresh : Uninitialised}
    {file : File} (fstr : String) :
    file.reply cached fresh fstr =
        header file.size fstr ++ file.contents.slice 0 file.size ↔
      if cached.map File.path = some file.path then
        fresh.fileLength = file.size
      else
        file.IsEager ∨ file.size < maxTestSize ∨
          file.contents.slice 0 file.size = List.replicate file.size 0 := by
  unfold File.reply File.lengthFor File.body
  split
  · constructor
    · exact header_injective (Memory.length_slice _ _ _)
        (Memory.length_slice _ _ _)
    · intro same
      rw [same]
      congr 1
      refine Memory.slice_congr fun i _ upper => ?_
      rw [Memory.copy_inside _ _ (Nat.zero_le i) (by omega), Nat.sub_zero,
        Memory.copy_inside _ _ (Nat.zero_le i) (by omega), Nat.sub_zero]
  · rw [List.append_cancel_left_eq]
    split
    · rename_i direct
      exact iff_of_true rfl (direct.imp_right Or.inl)
    · rename_i direct
      obtain ⟨large, full⟩ := not_or.mp direct
      rw [or_iff_right large, or_iff_right full]
      exact eq_comm

private theorem bytes_append (first second : String) :
    bytes (first ++ second) = bytes first ++ bytes second := by
  simp [bytes]

/-- A reply with a file is not the one that says that there is none. -/
private theorem header_ne_notFound (len : Nat) (fstr : String)
    (body : List UInt8) :
    header len fstr ++ body ≠ (logger .notFound).1 := by
  intro same
  have found : (header len fstr ++ body)[9]? = some 50 := by
    simp only [header, List.append_assoc]
    rfl
  have notFound : (logger .notFound).1[9]? = some 52 := by
    simp only [logger, bytes_append, List.append_assoc]
    rfl
  rw [same, notFound] at found
  exact absurd found (by decide)

section Single

variable {numServers : Nat} {topDir : TopDir} {files : List File}
  {fresh : Uninitialised} {request : List UInt8} {buffer : Memory}
  {fstr : String} {mayCrash : Prop}

private theorem keyOf_eq {s : Memory}
    (passes : checks request s = some (buffer, fstr)) :
    topDir.path.append (stringAt buffer 4) = keyOf topDir request := by
  have isPath : checked request s = some (stringAt buffer 4, fstr) := by
    unfold checked
    rw [passes]
    rfl
  rw [urlPath_of_checked isPath]
  rfl

/-- The fill and one request that passes the checks. -/
private theorem achieves_single {post : List (List UInt8) → Prop}
    (positive : 0 < numServers) (small : numServers < unsignedRange)
    (nonempty : ∀ file ∈ files, file.path ≠ CString.empty)
    (distinct : (files.map File.path).Nodup)
    (passes : checks request Memory.zero = some (buffer, fstr))
    (unfilled : ¬ Fillable numServers files → mayCrash)
    (answered : ∀ ledger client a, Tracks ledger client a →
      Leaves numServers files ledger → Fillable numServers files →
        Achieves False mayCrash
          (fun result _ => ∀ client written after,
            respond fresh fstr buffer result.1 client =
              .answered written after client → post [written])
          (dkvGet numServers (keyOf topDir request) client) a)
    (buf : Conn → Memory) :
    Achieves False mayCrash (fun replies _ => post replies)
      (main numServers topDir files [(fresh, request)] buf) Atomic.init := by
  refine wp_bind (wp_mono ?_ (achieves_recursiveFillKv positive small files
    (tracks_init buf) Leaves.init nonempty (by simpa using distinct) unfilled))
  rintro client a ⟨fillable, ledger, tracks, leaves⟩
  simp only [acceptLoop, web, passes, keyOf_eq passes]
  refine wp_bind (wp_bind (wp_mono ?_
    (answered ledger client a tracks leaves fillable)))
  rintro ⟨result, client'⟩ a' right
  exact achieves_done (achieves_done (right client' _ _ rfl))

/-- For a key that is not stored the header is sent all the same, unless the
process crashes. -/
private theorem achieves_missing (positive : 0 < numServers)
    (small : numServers < unsignedRange)
    (nonempty : ∀ file ∈ files, file.path ≠ CString.empty)
    (distinct : (files.map File.path).Nodup)
    (passes : checks request Memory.zero = some (buffer, fstr))
    (crash : mayCrash) (buf : Conn → Memory) :
    Achieves False mayCrash
      (fun replies _ => ∃ len body, replies = [header len fstr ++ body])
      (main numServers topDir files [(fresh, request)] buf) Atomic.init := by
  refine achieves_single positive small nonempty distinct passes
    (fun _ => crash) (fun ledger client a tracks leaves _ => ?_) buf
  obtain ⟨isKey, short⟩ := key_lt topDir buffer
  rw [keyOf_eq passes] at isKey short
  refine wp_mono (fun result a' _ client written after isReply => ?_)
    (achieves_dkvGet positive small tracks (leaves.usable isKey) short
      (fun _ => crash) fun _ => crash)
  obtain ⟨rfl, _⟩ := Outcome.answered.inj isReply
  exact ⟨_, _, rfl⟩

/-- A small file that is stored, on a connection that is intact. -/
theorem Leaves.holds {ledger : Ledger} {file : File}
    (leaves : Leaves numServers files ledger)
    (distinct : (files.map File.path).Nodup) (member : file ∈ files)
    (fits : file.size ≤ maxTestSize)
    (stays : file.IsEager → ¬ Breaks numServers (earlier files file.path)
      (selectServer numServers file.path))
    (intact : ¬ Breaks numServers files (selectServer numServers file.path)) :
    Holds numServers (Session.start files).cached ledger file := by
  refine ⟨leaves.broken_false.mpr intact, ?_, leaves.isCached_iff, fun hit => ?_⟩
  · rw [leaves.held file member]
    exact File.left_of_small fits stays
  · obtain ⟨other, cached, same⟩ := Option.map_eq_some_iff.mp hit
    obtain rfl := List.inj_on_of_nodup_map distinct (mem_of_remembered cached)
      member same
    obtain ⟨_, _, _, large, _⟩ := remembered_split cached
    exact ⟨large, (leaves.length other cached).trans
      (File.length_of_small fits)⟩

/-- The connection to the server of the file is broken, and the request for it
fails. -/
theorem Leaves.get_broken {ledger : Ledger} {file : File}
    (leaves : Leaves numServers files ledger) (accepted : file.Accepted)
    (miss : (Session.start files).cached.map File.path ≠ some file.path)
    (broken : Breaks numServers files (selectServer numServers file.path)) :
    (ledger.get (selectServer numServers file.path) file.path).1 =
      some ⟨-1, none, none⟩ := by
  have fits : ¬ 8 + (file.path.length + 1) > eagerProtocolLimit := by
    have short := accepted.short
    simp only [sizeofPacket] at short
    omega
  have uncached : ¬ ledger.isCached file.path = true :=
    leaves.isCached_iff.not.mpr miss
  unfold Ledger.get
  rw [if_neg (Ledger.accepted_mod accepted.short), if_neg uncached,
    if_neg fits, if_pos ((leaves.broken _).mpr broken)]

/-- The reply for a file whose connection is broken is right only by chance. -/
private theorem header_heap_iff {file : File} :
    header fresh.fileLength fstr ++ fresh.heap.slice 0 fresh.fileLength =
        header file.size fstr ++ file.contents.slice 0 file.size ↔
      fresh.fileLength = file.size ∧
        fresh.heap.slice 0 file.size = file.contents.slice 0 file.size := by
  constructor
  · intro same
    have length := header_injective (Memory.length_slice _ _ _)
      (Memory.length_slice _ _ _) same
    rw [length] at same
    exact ⟨length, List.append_cancel_left same⟩
  · rintro ⟨length, bytes⟩
    rw [length, bytes]

private theorem inStore_some {key : CString} {file : File}
    (found : inStore numServers files key = some file) :
    file ∈ files ∧ file.path = key ∧ (file.IsEager →
      ¬ Breaks numServers (earlier files key)
        (selectServer numServers key)) := by
  obtain ⟨isFile, stays⟩ := Option.filter_eq_some_iff.mp found
  obtain ⟨member, isKey⟩ := stocked_mem isFile
  exact ⟨member, isKey, fun isEager breaks =>
    of_decide_eq_true stays ⟨isEager, breaks⟩⟩

/-- What `dkv_get` returns for a key that is stored, and when what `web` makes
of it is right. -/
private theorem exists_response {ledger : Ledger} {file : File}
    (distinct : (files.map File.path).Nodup)
    (leaves : Leaves numServers files ledger)
    (fillable : Fillable numServers files) (member : file ∈ files)
    (accepted : file.Accepted)
    (stays : file.IsEager → ¬ Breaks numServers (earlier files file.path)
      (selectServer numServers file.path)) :
    ∃ result, (ledger.get (selectServer numServers file.path) file.path).1 =
        some result ∧
      ∀ client written after,
        respond fresh fstr buffer result client =
          .answered written after client →
            (written = header file.size fstr ++
                file.contents.slice 0 file.size ↔
              if (Session.start files).cached.map File.path =
                  some file.path then
                fresh.fileLength = file.size
              else if Breaks numServers files
                  (selectServer numServers file.path) then
                fresh.fileLength = file.size ∧
                  fresh.heap.slice 0 file.size =
                    file.contents.slice 0 file.size
              else
                file.IsEager ∨ file.size < maxTestSize ∨
                  file.contents.slice 0 file.size =
                    List.replicate file.size 0) := by
  by_cases intact :
      ¬ Breaks numServers files (selectServer numServers file.path)
  · obtain ⟨result, computed, responds⟩ :=
      (leaves.holds distinct member accepted.small stays intact).responds
        accepted
    refine ⟨result, computed, fun client written after isReply => ?_⟩
    obtain ⟨rfl, _⟩ := Outcome.answered.inj
      ((responds fresh fstr buffer client).symm.trans isReply)
    rw [File.reply_eq_iff, if_neg intact]
  · have broken := not_not.mp intact
    have miss :
        (Session.start files).cached.map File.path ≠ some file.path := by
      intro hit
      obtain ⟨other, cached, same⟩ := Option.map_eq_some_iff.mp hit
      obtain rfl := List.inj_on_of_nodup_map distinct
        (mem_of_remembered cached) member same
      exact not_breaks_of_remembered fillable cached
        (File.not_overflows_of_small accepted.small) broken
    refine ⟨_, leaves.get_broken accepted miss broken,
      fun client written after isReply => ?_⟩
    obtain ⟨rfl, _⟩ := Outcome.answered.inj isReply
    rw [if_neg miss, if_pos broken]
    exact header_heap_iff

/-- For a key that is stored. -/
private theorem achieves_stored {file : File} (positive : 0 < numServers)
    (small : numServers < unsignedRange)
    (nonempty : ∀ file ∈ files, file.path ≠ CString.empty)
    (distinct : (files.map File.path).Nodup)
    (passes : checks request Memory.zero = some (buffer, fstr))
    (found : inStore numServers files (keyOf topDir request) = some file)
    (fits : file.size ≤ maxTestSize) (buf : Conn → Memory) :
    Achieves False (¬ Readable numServers topDir files fresh request)
      (fun replies _ =>
        (∃ written, replies = [written] ∧
            RightReply numServers topDir files request fstr written) ↔
          Readable numServers topDir files fresh request)
      (main numServers topDir files [(fresh, request)] buf) Atomic.init := by
  obtain ⟨member, isKey, stays⟩ := inStore_some found
  refine achieves_single positive small nonempty distinct passes
    (fun unfilled readable => unfilled readable.1)
    (fun ledger client a tracks leaves fillable => ?_) buf
  have accepted : file.Accepted := by
    obtain ⟨front, back, rfl⟩ := List.append_of_mem member
    exact ⟨nonempty file member, fillable.settable.1, fits⟩
  have right (written : List UInt8) :
      (∃ only, [written] = [only] ∧
          RightReply numServers topDir files request fstr only) ↔
        written = header file.size fstr ++
          file.contents.slice 0 file.size := by
    simp [RightReply, found]
  rw [← isKey] at stays
  obtain ⟨result, computed, replies⟩ :=
    exists_response distinct leaves fillable member accepted stays
  rw [isKey] at computed
  obtain ⟨isKey', short⟩ := key_lt topDir buffer
  rw [keyOf_eq passes] at isKey' short
  refine wp_mono ?_ (achieves_dkvGet positive small tracks
    (leaves.usable isKey') short ?_ ?_)
  · rintro ⟨answer, client'⟩ a' ⟨known, _⟩ client'' written after isReply
    obtain rfl : answer = result := known result computed
    rw [right, replies client'' written after isReply]
    simp [Readable, fillable, found]
  · exact fun long => absurd (isKey ▸ accepted.short) (not_le.mpr long)
  · exact fun crashes => absurd (computed.symm.trans crashes) (by simp)

private theorem achieves_answers (positive : 0 < numServers)
    (small : numServers < unsignedRange)
    (nonempty : ∀ file ∈ files, file.path ≠ CString.empty)
    (distinct : (files.map File.path).Nodup)
    (fits : ∀ file, inStore numServers files (keyOf topDir request) =
      some file → file.size ≤ maxTestSize)
    (passes : checks request Memory.zero = some (buffer, fstr))
    (buf : Conn → Memory) :
    Achieves False (¬ Readable numServers topDir files fresh request)
      (fun replies _ =>
        (∃ written, replies = [written] ∧
            RightReply numServers topDir files request fstr written) ↔
          Readable numServers topDir files fresh request)
      (main numServers topDir files [(fresh, request)] buf) Atomic.init := by
  cases found : inStore numServers files (keyOf topDir request) with
  | some file =>
      exact achieves_stored positive small nonempty distinct passes found
        (fits file found) buf
  | none =>
      have wrong : ¬ Readable numServers topDir files fresh request := by
        rintro ⟨_, file, isFile, _⟩
        exact absurd (found.symm.trans isFile) (by simp)
      refine wp_mono (fun replies a isHeader => ?_)
        (achieves_missing positive small nonempty distinct passes wrong buf)
      obtain ⟨len, body, rfl⟩ := isHeader
      refine iff_of_false ?_ wrong
      rintro ⟨written, isWritten, right⟩
      obtain rfl := (List.cons.inj isWritten).1
      unfold RightReply at right
      rw [found] at right
      exact header_ne_notFound len fstr body right

/-- A single request that passes the checks of a freshly started nweb is
answered, unless a server fails, and the reply is the file under its length,
or that there is no such file, exactly if the fill returns, the key is stored,
and its value is not read through the cache or a broken connection with
something else in `file_length` or on the heap and leaves one byte of its
buffer. -/
theorem web_answers_iff {regMr : Nat → Nat → Option IbvMr} {c : Cluster}
    (positive : 0 < numServers) (small : numServers < unsignedRange)
    (distinctMrs : ∀ id, DistinctMrs (regMr id))
    (initial : Cluster.Initial regMr c)
    (nonempty : ∀ file ∈ files, file.path ≠ CString.empty)
    (distinct : (files.map File.path).Nodup)
    (fits : ∀ file, inStore numServers files (keyOf topDir request) =
      some file → file.size ≤ maxTestSize)
    (passes : checks request Memory.zero = some (buffer, fstr))
    (buf : Conn → Memory) :
    Finishes (Cluster.environment regMr) (Cluster.Halted regMr)
      (¬ Readable numServers topDir files fresh request)
      (fun replies =>
        (∃ written, replies = [written] ∧
            RightReply numServers topDir files request fstr written) ↔
          Readable numServers topDir files fresh request)
      (main numServers topDir files [(fresh, request)] buf, c) :=
  Achieves.finishes distinctMrs initial (achieves_answers positive small
    nonempty distinct fits passes buf)

end Single

/-! ### A file that is missing -/

open Sample

namespace Page

def www : TopDir where
  path := ⟨bytes "w", ne_zero_of_all (by decide)⟩
  nonempty := by decide
  fits := by decide

/-- `file_length` holds zero, and the heap is clear. -/
def cleared : Uninitialised := ⟨0, Memory.zero⟩

def get : List UInt8 := bytes "GET /a.html HTTP/1.0\n\n"

def post : List UInt8 := bytes "POST /a.html HTTP/1.0\n\n"

/-- Ten letters. -/
def page : File where
  path := ⟨bytes "w/a.html", ne_zero_of_all (by decide)⟩
  contents := fun _ => 65
  size := 10

/-- More than a buffer holds. -/
def oversize : File where
  path := ⟨bytes "w/b.html", ne_zero_of_all (by decide)⟩
  contents := fun _ => 66
  size := 1000000

private theorem page_accepted : ∀ file ∈ [page], file.Accepted := by
  intro file member
  obtain rfl := List.mem_singleton.mp member
  exact ⟨by decide, by decide, by decide⟩

private theorem get_passes : ∃ buffer,
    checks get Memory.zero = some (buffer, "text/html") := by
  have passes : ((checks get Memory.zero).map Prod.snd) = some "text/html" := by
    decide +kernel
  obtain ⟨⟨buffer, fstr⟩, isPair, rfl⟩ := Option.map_eq_some_iff.mp passes
  exact ⟨buffer, isPair⟩

end Page

open Page

/-- The page is stored, and then a file that is too large breaks the
connection to its server. -/
theorem web_answers_iff_page :
    Breaks 1 [page, oversize] 0 ∧
      Finishes (Cluster.environment mr) (Cluster.Halted mr)
        (¬ Readable 1 www [page, oversize] cleared get)
        (fun replies =>
          (∃ written, replies = [written] ∧
              RightReply 1 www [page, oversize] get "text/html" written) ↔
            Readable 1 www [page, oversize] cleared get)
        (main 1 www [page, oversize] [(cleared, get)] client.buf, cluster) := by
  obtain ⟨buffer, passes⟩ := get_passes
  have found : (inStore 1 [page, oversize] (keyOf www get)).all
      (fun file => decide (file.size ≤ maxTestSize)) = true := by
    decide +kernel
  refine ⟨by decide +kernel, web_answers_iff (by decide) (by decide)
    mr_distinct cluster_initial ?_ (by decide) ?_ passes client.buf⟩
  · intro file member
    rcases List.mem_pair.mp member with rfl | rfl
    · decide
    · decide
  · intro file isFile
    rw [isFile] at found
    exact of_decide_eq_true found

/-- No file is stored, and nweb crashes or sends another reply than the one
for a missing file. -/
theorem web_answers_fails :
    (checks get Memory.zero).isSome = true ∧ stocked [] (keyOf www get) = none ∧
      (∃ c, Steps (Cluster.environment mr)
        (main 1 www [] [(cleared, get)] client.buf, cluster) (.crash, c)) ∧
      ∀ replies c, Steps (Cluster.environment mr)
        (main 1 www [] [(cleared, get)] client.buf, cluster)
        (.done replies, c) → replies ≠ [(logger .notFound).1] := by
  obtain ⟨buffer, passes⟩ := get_passes
  refine ⟨by rw [passes]; rfl, rfl, ?_, fun replies c steps same => ?_⟩
  · exact Cluster.steps_of_crash 20 _ (by decide +kernel)
  · obtain ⟨a, _, achieved⟩ := (simulation mr mr_distinct False).reachable
      (ClusterRel.init cluster_initial)
      (achieves_missing (by decide) (by decide) (by simp) (by simp) passes
        trivial client.buf) steps
    obtain ⟨len, body, isHeader⟩ := achieved a .refl
    rw [isHeader] at same
    exact header_ne_notFound len "text/html" body (List.cons.inj same).1

/-! ## Requests in one process and alone -/

section Independent

variable {numServers : Nat} {topDir : TopDir} {files : List File}
  {s : Session} {fresh alone : Uninitialised} {request : List UInt8}

/-- Nothing that earlier requests left shows in the reply to a request: the
checks come out as on a cleared buffer, and if they let the request pass, its
file is stored and is cached neither now nor after the fill. -/
def Unaffected (topDir : TopDir) (files : List File) (s : Session)
    (request : List UInt8) : Prop :=
  checked request s.buffer = checked request Memory.zero ∧
    ∀ path fstr, checked request Memory.zero = some (path, fstr) →
      ∃ file, stocked files (topDir.path.append path) = some file ∧
        s.cached.map File.path ≠ some file.path ∧
        (Session.start files).cached.map File.path ≠ some file.path

theorem Session.reply_eq (s : Session) :
    s.reply? topDir files fresh request =
      match checked request s.buffer with
      | none => some (logger .forbidden).1
      | some (path, fstr) =>
          (stocked files (topDir.path.append path)).map
            (File.reply s.cached fresh fstr) := by
  unfold Session.reply? checked
  cases checks request s.buffer <;> rfl

/-- A file that is not cached is sent in one way. -/
theorem File.reply_of_miss {cached other : Option File} {file : File}
    {fstr : String} (miss : cached.map File.path ≠ some file.path)
    (otherMiss : other.map File.path ≠ some file.path) :
    file.reply cached fresh fstr = file.reply other alone fstr := by
  unfold File.reply File.lengthFor File.body
  rw [if_neg miss, if_neg miss, if_neg otherMiss, if_neg otherMiss]

/-- The session and the one after the fill answer alike. -/
theorem Unaffected.reply (unaffected : Unaffected topDir files s request) :
    ∃ written, s.reply? topDir files fresh request = some written ∧
      (Session.start files).reply? topDir files alone request =
        some written := by
  obtain ⟨same, stored⟩ := unaffected
  rw [Session.reply_eq, Session.reply_eq, same]
  simp only [Session.start]
  cases passes : checked request Memory.zero with
  | none => exact ⟨_, rfl, rfl⟩
  | some pair =>
      obtain ⟨file, found, miss, startMiss⟩ := stored pair.1 pair.2 passes
      simp only [found, Option.map_some]
      exact ⟨_, rfl, congrArg some (File.reply_of_miss startMiss miss)⟩

/-- If the process goes on after each of the earlier requests and these leave
nothing that shows, the last request is answered as it is answered alone. -/
theorem requests_independent {regMr : Nat → Nat → Option IbvMr}
    {c c' : Cluster} {front : List (Uninitialised × List UInt8)}
    (positive : 0 < numServers) (small : numServers < unsignedRange)
    (distinctMrs : ∀ id, DistinctMrs (regMr id))
    (initial : Cluster.Initial regMr c) (initial' : Cluster.Initial regMr c')
    (accepted : ∀ file ∈ files, file.Accepted)
    (distinct : (files.map File.path).Nodup)
    (goes : (Session.start files).after? topDir files front = some s)
    (unaffected : Unaffected topDir files s request)
    (buf buf' : Conn → Memory) :
    ∃ written,
      Finishes (Cluster.environment regMr) (Cluster.Halted regMr) False
        (fun replies => replies.length = front.length + 1 ∧
          replies[front.length]? = some written)
        (main numServers topDir files (front ++ [(fresh, request)]) buf, c) ∧
      Finishes (Cluster.environment regMr) (Cluster.Halted regMr) False
        (fun replies => replies = [written])
        (main numServers topDir files [(alone, request)] buf', c') := by
  obtain ⟨written, answers, answersAlone⟩ :=
    @Unaffected.reply topDir files s fresh alone request unaffected
  refine ⟨written, Achieves.finishes distinctMrs initial (achieves_main front
    positive small accepted distinct goes answers buf),
    Achieves.finishes distinctMrs initial' (wp_mono (fun replies a last => ?_)
      (achieves_main [] positive small accepted distinct rfl answersAlone
        buf'))⟩
  obtain ⟨only, rfl⟩ := List.length_eq_one_iff.mp last.1
  exact congrArg (fun reply => [reply]) (Option.some.inj last.2)

end Independent

theorem requests_independent_page :
    ∃ s, (Session.start [page]).after? www [page] [(cleared, get)] = some s ∧
      ∃ written,
        Finishes (Cluster.environment mr) (Cluster.Halted mr) False
          (fun replies => replies.length = 2 ∧ replies[1]? = some written)
          (main 1 www [page] [(cleared, get), (cleared, get)] client.buf,
            cluster) ∧
        Finishes (Cluster.environment mr) (Cluster.Halted mr) False
          (fun replies => replies = [written])
          (main 1 www [page] [(cleared, get)] client.buf, cluster) := by
  have goes : (((Session.start [page]).after? www [page] [(cleared, get)]).map
      fun s => s.cached.map File.path) = some none := by
    decide +kernel
  obtain ⟨s, isSession, empty⟩ := Option.map_eq_some_iff.mp goes
  have delimited : Delimited get := by
    unfold Delimited
    decide
  refine ⟨s, isSession, requests_independent (by decide) (by decide)
    mr_distinct cluster_initial cluster_initial page_accepted (by decide)
    isSession ⟨checked_of_delimited delimited, fun path fstr passes => ?_⟩
    client.buf client.buf⟩
  rw [urlPath_of_checked passes]
  refine ⟨page, List.find?_cons_of_pos (by decide), ?_, by decide⟩
  rw [empty]
  simp

/-- A request that is forbidden ends the process, and the next one is not
answered. -/
theorem requests_independent_fails :
    (∃ replies c, Steps (Cluster.environment mr)
        (main 1 www [page] [(cleared, post), (cleared, get)] client.buf,
          cluster) (.done replies, c) ∧ replies.length = 1) ∧
      ∃ c, Steps (Cluster.environment mr)
        (main 1 www [page] [(cleared, get)] client.buf, cluster)
        (.done [header 10 "text/html" ++ List.replicate 10 65], c) := by
  refine ⟨?_, ?_⟩
  · obtain ⟨replies, c, steps, one⟩ := Cluster.steps_of_value mr 20
      (main 1 www [page] [(cleared, post), (cleared, get)] client.buf, cluster)
      (fun replies => decide (replies.length = 1)) (by decide +kernel)
    exact ⟨replies, c, steps, of_decide_eq_true one⟩
  · obtain ⟨replies, c, steps, isReply⟩ := Cluster.steps_of_value mr 20
      (main 1 www [page] [(cleared, get)] client.buf, cluster)
      (fun replies => decide (replies =
        [header 10 "text/html" ++ List.replicate 10 65])) (by decide +kernel)
    rw [of_decide_eq_true isReply] at steps
    exact ⟨c, steps⟩

end RdmaKv.Nweb
