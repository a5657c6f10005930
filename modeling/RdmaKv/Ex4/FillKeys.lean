import RdmaKv.Ex4.WebRuns

/-!
# The keys of the fill and of the requests

`recursive_fill_kv` puts the name of a file together while it goes down the
directories, and `web` cuts it out of the request.  Both come to the same key.
-/

namespace RdmaKv.Nweb

open ByteMemory Interaction

/-! ## The directories -/

structure FileName where
  name : CString
  nonempty : name ≠ CString.empty
  single : 47 ∉ name.chars
  deriving DecidableEq

/-- The entry is the directory itself or the one above it. -/
def FileName.isDot (name : FileName) : Bool :=
  name.name.chars = bytes "." || name.name.chars = bytes ".."

/-- What `readdir` returns in a directory, entry after entry, by `d_type`.  A
directory that cannot be opened shows no entry. -/
inductive Listing where
  | empty
  | reg (name : FileName) (contents : Memory) (size : Nat) (rest : Listing)
  | dir (name : FileName) (entries rest : Listing)
  | other (name : FileName) (rest : Listing)

def slash : CString := ⟨[47], by simp⟩

/-- The path of an entry: `strcpy` and two times `strcat`. -/
def entryPath (dirname : CString) (name : FileName) : CString :=
  (dirname.append slash).append name.name

def recursiveFillKvIn (numServers : Nat) :
    CString → Listing → Client → Run Client
  | _, .empty, client => .done client
  | dirname, .reg name contents size rest, client =>
      if name.isDot then recursiveFillKvIn numServers dirname rest client
      else
        dkvSet numServers (entryPath dirname name) contents size client >>=
          fun (_, client) => recursiveFillKvIn numServers dirname rest client
  | dirname, .dir name entries rest, client =>
      if name.isDot then recursiveFillKvIn numServers dirname rest client
      else
        recursiveFillKvIn numServers (entryPath dirname name) entries client >>=
          fun client => recursiveFillKvIn numServers dirname rest client
  | dirname, .other _ rest, client =>
      recursiveFillKvIn numServers dirname rest client

/-- The arguments of the calls of `dkv_set`, in their order. -/
def findFiles : CString → Listing → List File
  | _, .empty => []
  | dirname, .reg name contents size rest =>
      if name.isDot then findFiles dirname rest
      else ⟨entryPath dirname name, contents, size⟩ :: findFiles dirname rest
  | dirname, .dir name entries rest =>
      if name.isDot then findFiles dirname rest
      else findFiles (entryPath dirname name) entries ++ findFiles dirname rest
  | dirname, .other _ rest => findFiles dirname rest

private theorem recursiveFillKv_append (numServers : Nat)
    (files later : List File)
    (client : Client) :
    recursiveFillKv numServers (files ++ later) client =
      recursiveFillKv numServers files client >>=
        recursiveFillKv numServers later := by
  induction files generalizing client with
  | nil => rfl
  | cons file files inductionHypothesis =>
      rw [List.cons_append, recursiveFillKv, recursiveFillKv,
        Program.bind_assoc]
      simp only [inductionHypothesis]

/-- The recursion is one call of `dkv_set` after the other. -/
theorem recursiveFillKvIn_eq (numServers : Nat) (dirname : CString)
    (listing : Listing) (client : Client) :
    recursiveFillKvIn numServers dirname listing client =
      recursiveFillKv numServers (findFiles dirname listing) client := by
  induction listing generalizing dirname client with
  | empty => rfl
  | reg name contents size rest inRest =>
      unfold recursiveFillKvIn findFiles
      split
      · exact inRest dirname client
      · rw [recursiveFillKv]
        simp only [inRest]
  | dir name entries rest inEntries inRest =>
      unfold recursiveFillKvIn findFiles
      split
      · exact inRest dirname client
      · rw [recursiveFillKv_append, inEntries]
        simp only [inRest]
  | other name rest inRest => exact inRest dirname client

/-! ## The files below a directory -/

namespace Listing

inductive FileAt : Listing → List FileName → Memory → Nat → Prop where
  | here {name contents size rest} (proper : name.isDot = false) :
      FileAt (.reg name contents size rest) [name] contents size
  | inDir {name entries rest path contents size} (proper : name.isDot = false)
      (inside : FileAt entries path contents size) :
      FileAt (.dir name entries rest) (name :: path) contents size
  | afterReg {name other otherSize rest path contents size}
      (later : FileAt rest path contents size) :
      FileAt (.reg name other otherSize rest) path contents size
  | afterDir {name entries rest path contents size}
      (later : FileAt rest path contents size) :
      FileAt (.dir name entries rest) path contents size
  | afterOther {name rest path contents size}
      (later : FileAt rest path contents size) :
      FileAt (.other name rest) path contents size

def names : Listing → List FileName
  | .empty => []
  | .reg name _ _ rest => name :: rest.names
  | .dir name _ rest => name :: rest.names
  | .other name rest => name :: rest.names

/-- No directory has two entries of one name. -/
def Distinct : Listing → Prop
  | .empty => True
  | .reg name _ _ rest => name ∉ rest.names ∧ rest.Distinct
  | .dir name entries rest =>
      name ∉ rest.names ∧ entries.Distinct ∧ rest.Distinct
  | .other name rest => name ∉ rest.names ∧ rest.Distinct

/-- A path starts with a name of the directory. -/
theorem FileAt.first {listing : Listing} {path : List FileName}
    {contents : Memory} {size : Nat}
    (fileAt : listing.FileAt path contents size) :
    ∃ name ∈ listing.names, ∃ rest, path = name :: rest := by
  induction fileAt with
  | here proper => exact ⟨_, List.mem_cons_self, [], rfl⟩
  | inDir proper inside _ => exact ⟨_, List.mem_cons_self, _, rfl⟩
  | afterReg later found | afterDir later found | afterOther later found =>
      obtain ⟨name, member, rest, same⟩ := found
      exact ⟨name, List.mem_cons_of_mem _ member, rest, same⟩

end Listing

/-! ## The keys of the fill -/

/-- The components, separated by `/`. -/
def relativePath (path : List FileName) : List UInt8 :=
  List.intercalate [47] (path.map fun name => name.name.chars)

def fileKey (dirname : CString) (path : List FileName) : CString :=
  path.foldl entryPath dirname

theorem chars_fileKey (dirname : CString) {path : List FileName}
    (nonempty : path ≠ []) :
    (fileKey dirname path).chars =
      dirname.chars ++ 47 :: relativePath path := by
  induction path generalizing dirname with
  | nil => exact absurd rfl nonempty
  | cons name path inductionHypothesis =>
      have entry : (entryPath dirname name).chars =
          dirname.chars ++ 47 :: name.name.chars := by
        simp [entryPath, CString.append, slash]
      cases path with
      | nil =>
          simpa [fileKey, relativePath, List.intercalate_singleton] using entry
      | cons second path =>
          have later := inductionHypothesis (entryPath dirname name) (by simp)
          rw [entry] at later
          rw [fileKey, List.foldl_cons]
          refine later.trans ?_
          simp [relativePath, List.intercalate_cons_cons]

/-- The components can be read off the path. -/
private theorem relativePath_injective {path other : List FileName}
    (nonempty : path ≠ []) (otherNonempty : other ≠ [])
    (same : relativePath path = relativePath other) : path = other := by
  have split {path : List FileName} (nonempty : path ≠ []) :
      (relativePath path).splitOn 47 =
        path.map fun name => name.name.chars := by
    refine List.splitOn_intercalate 47 (fun chars member => ?_) (by simpa)
    obtain ⟨name, _, rfl⟩ := List.mem_map.mp member
    exact name.single
  have names := (split nonempty).symm.trans
    ((congrArg (List.splitOn 47) same).trans (split otherNonempty))
  refine List.map_injective_iff.mpr (fun first second chars => ?_) names
  cases first
  cases second
  simpa using CString.ext chars

/-- Two files never share their key. -/
private theorem fileKey_injective {dirname : CString}
    {path other : List FileName}
    (nonempty : path ≠ []) (otherNonempty : other ≠ [])
    (same : fileKey dirname path = fileKey dirname other) : path = other := by
  have chars := congrArg CString.chars same
  rw [chars_fileKey dirname nonempty, chars_fileKey dirname otherNonempty]
    at chars
  exact relativePath_injective nonempty otherNonempty
    (List.cons.inj (List.append_cancel_left chars)).2

/-- Every file is found. -/
theorem mem_findFiles_of_fileAt (dirname : CString) {listing : Listing}
    {path : List FileName} {contents : Memory} {size : Nat}
    (found : listing.FileAt path contents size) :
    ⟨fileKey dirname path, contents, size⟩ ∈ findFiles dirname listing := by
  induction found generalizing dirname with
  | here proper =>
      simp [findFiles, proper, fileKey]
  | inDir proper inside inInside =>
      simp only [findFiles, proper, Bool.false_eq_true, if_false]
      exact List.mem_append_left _ (inInside _)
  | afterReg later inLater =>
      unfold findFiles
      split
      · exact inLater dirname
      · exact List.mem_cons_of_mem _ (inLater dirname)
  | afterDir later inLater =>
      unfold findFiles
      split
      · exact inLater dirname
      · exact List.mem_append_right _ (inLater dirname)
  | afterOther later inLater => exact inLater dirname

/-- The files that are found are those that are there, each under its key. -/
private theorem mem_findFiles {dirname : CString} {listing : Listing}
    {file : File} :
    file ∈ findFiles dirname listing ↔
      ∃ path, listing.FileAt path file.contents file.size ∧
        file.path = fileKey dirname path := by
  constructor
  · intro member
    induction listing generalizing dirname with
    | empty => exact absurd member (by simp [findFiles])
    | reg name contents size rest inRest =>
        unfold findFiles at member
        split at member
        · obtain ⟨path, found, key⟩ := inRest member
          exact ⟨path, .afterReg found, key⟩
        · rename_i proper
          rcases List.mem_cons.mp member with rfl | later
          · exact ⟨[name], .here (Bool.eq_false_iff.mpr proper), rfl⟩
          · obtain ⟨path, found, key⟩ := inRest later
            exact ⟨path, .afterReg found, key⟩
    | dir name entries rest inEntries inRest =>
        unfold findFiles at member
        split at member
        · obtain ⟨path, found, key⟩ := inRest member
          exact ⟨path, .afterDir found, key⟩
        · rename_i proper
          rcases List.mem_append.mp member with below | later
          · obtain ⟨path, found, key⟩ := inEntries below
            exact ⟨name :: path, .inDir (Bool.eq_false_iff.mpr proper) found,
              key⟩
          · obtain ⟨path, found, key⟩ := inRest later
            exact ⟨path, .afterDir found, key⟩
    | other name rest inRest =>
        obtain ⟨path, found, key⟩ := inRest member
        exact ⟨path, .afterOther found, key⟩
  · rintro ⟨path, found, key⟩
    obtain ⟨filePath, contents, size⟩ := file
    obtain rfl : filePath = fileKey dirname path := key
    exact mem_findFiles_of_fileAt dirname found

/-- No key is set twice. -/
theorem nodup_findFiles {listing : Listing} (distinct : listing.Distinct)
    (dirname : CString) :
    ((findFiles dirname listing).map File.path).Nodup := by
  -- A key that starts with a name of the directory is not among the later ones.
  have apart {name : FileName} {rest : Listing} {dirname : CString}
      {path : List FileName} (new : name ∉ rest.names) :
      fileKey dirname (name :: path) ∉
        (findFiles dirname rest).map File.path := by
    intro member
    obtain ⟨file, isFile, key⟩ := List.mem_map.mp member
    obtain ⟨other, found, otherKey⟩ := mem_findFiles.mp isFile
    obtain ⟨first, isName, later, rfl⟩ := found.first
    have same := fileKey_injective (by simp) (by simp) (key.symm.trans otherKey)
    exact new ((List.cons.inj same).1 ▸ isName)
  induction listing generalizing dirname with
  | empty => exact List.nodup_nil
  | reg name contents size rest inRest =>
      unfold findFiles
      split
      · exact inRest distinct.2 dirname
      · rw [List.map_cons, List.nodup_cons]
        exact ⟨@apart name rest dirname [] distinct.1,
          inRest distinct.2 dirname⟩
  | dir name entries rest inEntries inRest =>
      unfold findFiles
      split
      · exact inRest distinct.2.2 dirname
      · rw [List.map_append, List.nodup_append']
        refine ⟨inEntries distinct.2.1 _, inRest distinct.2.2 dirname,
          fun key below later => ?_⟩
        obtain ⟨file, isFile, rfl⟩ := List.mem_map.mp below
        obtain ⟨path, _, key⟩ := mem_findFiles.mp isFile
        rw [key] at later
        exact @apart name rest dirname path distinct.1 later
  | other name rest inRest => exact inRest distinct.2 dirname

/-! ## The keys of the requests -/

/-- A path that a request can name: no space, CR, LF or `..`, and an extension
at its end that is supported. -/
structure Servable (rel : List UInt8) : Prop where
  noSpace : 32 ∉ rel
  noReturn : 13 ∉ rel
  noFeed : 10 ∉ rel
  noParent : ¬ [46, 46] <:+: rel
  supported : ∃ extension ∈ extensions, bytes extension.1 <:+ rel

theorem Servable.nonempty {rel : List UInt8} (servable : Servable rel) :
    rel ≠ [] := by
  obtain ⟨extension, isExtension, ends⟩ := servable.supported
  have letters : ∀ extension ∈ extensions, bytes extension.1 ≠ [] := by decide
  rintro rfl
  exact letters extension isExtension (List.suffix_nil.mp ends)

/-- `GET /`, the path, a space and what comes behind it. -/
def requestFor (rel rest : List UInt8) : List UInt8 :=
  bytes "GET /" ++ rel ++ 32 :: rest

section Request

variable {rel rest : List UInt8}

/-- What the request is when CR and LF have been replaced. -/
private theorem starred_requestFor (servable : Servable rel) :
    starred (requestFor rel rest) = requestFor rel (starred rest) := by
  have kept : starred rel = rel := by
    refine (List.map_congr_left fun c member => if_neg ?_).trans (List.map_id _)
    rintro (rfl | rfl)
    · exact servable.noReturn member
    · exact servable.noFeed member
  have method : starred (bytes "GET /") = bytes "GET /" := by decide
  unfold requestFor
  rw [starred, List.map_append, List.map_append, List.map_cons]
  exact congrArg₂ _ (congrArg₂ _ method kept) rfl

theorem isRequest_requestFor (servable : Servable rel)
    (small : (requestFor rel rest).length < bufsize) :
    IsRequest (requestFor rel rest) := by
  refine ⟨small, Or.inl ?_⟩
  rw [starred_requestFor servable]
  rfl

/-- The path of the request. -/
private theorem pathOf_requestFor (servable : Servable rel)
    (nonzero : 0 ∉ rel) :
    pathOf (requestFor rel rest) = 47 :: rel := by
  have kept : ∀ c ∈ 47 :: rel, decide (c ≠ 0 ∧ c ≠ 32) = true := by
    intro c member
    rw [decide_eq_true_iff]
    rcases List.mem_cons.mp member with rfl | inside
    · decide
    · exact ⟨fun zero => nonzero (zero ▸ inside),
        fun space => servable.noSpace (space ▸ inside)⟩
  have path : (starred (requestFor rel rest)).drop 4 =
      (47 :: rel) ++ 32 :: starred rest := by
    rw [starred_requestFor servable]
    rfl
  rw [pathOf, path, List.takeWhile_append_of_pos kept,
    List.takeWhile_cons_of_neg (by decide), List.append_nil]

/-- The index file is not meant. -/
theorem lineOf_requestFor (servable : Servable rel) (nonzero : 0 ∉ rel) :
    lineOf (requestFor rel rest) = bytes "GET /" ++ rel := by
  have other : ¬ 47 :: rel = [47] := by simpa using servable.nonempty
  rw [lineOf, pathOf_requestFor servable nonzero, if_neg other,
    starred_requestFor servable]
  rfl

/-- Two bytes next to each other. -/
private theorem adjacent_of_getD {chars : List UInt8} {c : UInt8} {i : Nat}
    (inside : i + 1 < chars.length) (first : chars.getD i 0 = c)
    (second : chars.getD (i + 1) 0 = c) : [c, c] <:+: chars := by
  rw [List.getD_eq_getElem _ _ (by omega)] at first
  rw [List.getD_eq_getElem _ _ inside] at second
  have split : chars.drop i = c :: c :: chars.drop (i + 2) := by
    rw [List.drop_eq_getElem_cons (by omega), first,
      List.drop_eq_getElem_cons inside, second]
  refine ⟨chars.take i, chars.drop (i + 2), ?_⟩
  rw [List.append_assoc, List.cons_append, List.cons_append, List.nil_append,
    ← split, List.take_append_drop]

/-- There is no `..` before the second space. -/
theorem seesParent_requestFor (servable : Servable rel)
    (small : (requestFor rel rest).length < bufsize) (buffer : Memory) :
    seesParent (requestFor rel rest) buffer = false := by
  rw [Bool.eq_false_iff]
  intro sees
  obtain ⟨j, _, clear, first, second⟩ := seesParent_iff.mp sees
  have length : (requestFor rel rest).length =
      (5 + rel.length) + (rest.length + 1) := by
    rw [requestFor, List.length_append, List.length_append, List.length_cons]
    rfl
  have byte (k : Nat) (inside : k < 5 + rel.length + 1) :
      receive (requestFor rel rest) buffer k =
        (bytes "GET /" ++ (rel ++ 32 :: starred rest)).getD k 0 := by
    rw [receive_inside small (by omega), starred_requestFor servable,
      requestFor, List.append_assoc]
  have inRel (i : Nat) (inside : i < rel.length) :
      receive (requestFor rel rest) buffer (5 + i) = rel.getD i 0 := by
    rw [byte _ (by omega), List.getD_append_right _ _ _ _ (Nat.le_add_right 5 i)]
    rw [← List.getD_append rel (32 :: starred rest) 0 i inside]
    exact congrArg (fun k => List.getD _ k 0) (Nat.add_sub_cancel_left 5 i)
  have space : receive (requestFor rel rest) buffer (5 + rel.length) = 32 := by
    rw [byte _ (by omega),
      List.getD_append_right _ _ _ _ (Nat.le_add_right 5 rel.length)]
    have here : 5 + rel.length - (bytes "GET /").length = rel.length :=
      Nat.add_sub_cancel_left 5 rel.length
    rw [here, List.getD_append_right _ _ _ _ le_rfl, Nat.sub_self]
    rfl
  have before : j + 1 < 5 + rel.length := by
    by_contra after
    exact clear _ (by omega) (not_lt.mp after) space
  -- The method has no dot, so both of them are in the path.
  have method : ∀ k < 5, (bytes "GET /").getD k 0 ≠ 46 := by decide
  have after : 5 ≤ j := by
    by_contra early
    have inside : j < (bytes "GET /").length := not_le.mp early
    rw [byte j (by omega), List.getD_append _ _ _ _ inside] at first
    exact method j inside first
  obtain ⟨i, rfl⟩ := Nat.exists_eq_add_of_le after
  rw [inRel i (by omega)] at first
  rw [Nat.add_assoc, inRel (i + 1) (by omega)] at second
  exact servable.noParent (adjacent_of_getD (by omega) first second)

/-- The type of the file is known. -/
theorem typeOf_requestFor (servable : Servable rel) (nonzero : 0 ∉ rel) :
    ∃ fstr, typeOf (requestFor rel rest) = some fstr := by
  obtain ⟨extension, isExtension, ends⟩ := servable.supported
  have suffix : bytes extension.1 <:+ lineOf (requestFor rel rest) := by
    rw [lineOf_requestFor servable nonzero]
    exact ends.trans (List.suffix_append _ _)
  unfold typeOf
  refine Option.isSome_iff_exists.mp ?_
  rw [Option.isSome_map, List.find?_isSome]
  exact ⟨extension, isExtension,
    decide_eq_true (List.suffix_iff_eq_drop.mp suffix).symm⟩

/-- `web` asks for the path below `top_dir`. -/
private theorem web_requestFor (numServers : Nat) (topDir : TopDir)
    (servable : Servable rel) (nonzero : 0 ∉ rel)
    (small : (requestFor rel rest).length < bufsize) {key : CString}
    (isKey : key.chars = topDir.path.chars ++ 47 :: rel) (buffer : Memory) :
    ∃ fstr after, ∀ fresh client,
      web numServers topDir fresh (requestFor rel rest) buffer client =
        dkvGet numServers key client >>= fun (result, client) =>
          .done (respond fresh fstr after result client) := by
  obtain ⟨fstr, isType⟩ := @typeOf_requestFor rel rest servable nonzero
  have isRequest := isRequest_requestFor servable small
  have passes := checked_eq buffer isRequest
  rw [seesParent_requestFor servable small buffer, isType] at passes
  obtain ⟨⟨after, type⟩, checks, pair⟩ := Option.map_eq_some_iff.mp passes
  obtain ⟨path, rfl⟩ := Prod.mk.inj pair
  have same : topDir.path.append (stringAt after 4) = key := by
    refine CString.ext ?_
    rw [path, isKey]
    change topDir.path.chars ++ (urlPath (requestFor rel rest)).chars = _
    rw [← drop_lineOf isRequest, lineOf_requestFor servable nonzero]
    rfl
  refine ⟨type, after, fun fresh client => ?_⟩
  rw [web, checks, ← same]

end Request

/-! ## Both -/

section Both

variable {numServers : Nat} {topDir : TopDir} {listing : Listing}
  {regMr : Nat → Nat → Option IbvMr} {c : Cluster}

theorem Listing.FileAt.nonempty {path : List FileName} {contents : Memory}
    {size : Nat} (found : listing.FileAt path contents size) : path ≠ [] := by
  obtain ⟨name, _, rest, rfl⟩ := found.first
  exact List.cons_ne_nil name rest

private theorem zero_notMem_relativePath (dirname : CString)
    {path : List FileName}
    (nonempty : path ≠ []) : 0 ∉ relativePath path := by
  intro member
  have inside : 0 ∈ (fileKey dirname path).chars := by
    rw [chars_fileKey dirname nonempty]
    exact List.mem_append_right _ (List.mem_cons_of_mem _ member)
  exact (fileKey dirname path).nonzero 0 inside rfl

private theorem path_nonempty {file : File} {dirname : CString}
    (member : file ∈ findFiles dirname listing) :
    file.path ≠ CString.empty := by
  obtain ⟨path, found, key⟩ := mem_findFiles.mp member
  intro empty
  have chars := chars_fileKey dirname found.nonempty
  rw [← key, empty] at chars
  simp [CString.empty] at chars

/-- The calls of `dkv_set` up to a file: they return in every run, unless a
server fails, or they end the process in every run. -/
private theorem finishes_recursiveFillKv {before : List File}
    (positive : 0 < numServers)
    (small : numServers < unsignedRange)
    (distinctMrs : ∀ id, DistinctMrs (regMr id))
    (initial : Cluster.Initial regMr c)
    (nonempty : ∀ file ∈ before, file.path ≠ CString.empty)
    (distinct : (before.map File.path).Nodup) (buf : Conn → Memory) :
    Finishes (Cluster.environment regMr) (Cluster.Halted regMr)
      (¬ Fillable numServers before) (fun _ => Fillable numServers before)
      (recursiveFillKv numServers before (Client.init buf), c) :=
  Achieves.finishes distinctMrs initial (wp_mono (fun _ _ both => both.1)
    (achieves_recursiveFillKv positive small before (tracks_init buf)
      Leaves.init nonempty (by simpa using distinct) id))

/-- For each file `recursive_fill_kv` calls `dkv_set` once, with its contents
and with a key that no other file has, if it gets there: in every run, unless
a server fails, if the files before it are fillable, and else in none, because
the process has ended.  If a request can name the file, `web` calls `dkv_get`
with that key. -/
theorem fill_lookup_agree (positive : 0 < numServers)
    (small : numServers < unsignedRange)
    (distinctMrs : ∀ id, DistinctMrs (regMr id))
    (initial : Cluster.Initial regMr c) (distinct : listing.Distinct)
    (buf : Conn → Memory) :
    (∀ path contents size, listing.FileAt path contents size →
      (∃ before after,
        (∀ client, recursiveFillKvIn numServers topDir.path listing client =
          recursiveFillKv numServers before client >>= fun client =>
            dkvSet numServers (fileKey topDir.path path) contents size client
              >>= fun (_, client) => recursiveFillKv numServers after client) ∧
        (∀ file ∈ before ++ after, file.path ≠ fileKey topDir.path path) ∧
        Finishes (Cluster.environment regMr) (Cluster.Halted regMr)
          (¬ Fillable numServers before) (fun _ => Fillable numServers before)
          (recursiveFillKv numServers before (Client.init buf), c)) ∧
      (Servable (relativePath path) → ∀ rest,
        (requestFor (relativePath path) rest).length < bufsize →
          ∃ fstr buffer, ∀ fresh client,
            web numServers topDir fresh (requestFor (relativePath path) rest)
                Memory.zero client =
              dkvGet numServers (fileKey topDir.path path) client >>=
                fun (result, client) =>
                  .done (respond fresh fstr buffer result client))) ∧
    ∀ path contents size other otherContents otherSize,
      listing.FileAt path contents size →
      listing.FileAt other otherContents otherSize → path ≠ other →
      fileKey topDir.path path ≠ fileKey topDir.path other := by
  refine ⟨fun path contents size found => ⟨?_, fun servable rest short => ?_⟩,
    ?_⟩
  · obtain ⟨before, after, split⟩ := List.append_of_mem
      (mem_findFiles_of_fileAt topDir.path found)
    have nodup := nodup_findFiles distinct topDir.path
    have nonempty : ∀ file ∈ before, file.path ≠ CString.empty :=
      fun file member => path_nonempty
        (split ▸ List.mem_append_left _ member)
    rw [split, List.map_append, List.map_cons] at nodup
    refine ⟨before, after, fun client => ?_, fun file member same => ?_,
      finishes_recursiveFillKv positive small distinctMrs initial nonempty
        (List.nodup_append.mp nodup).1 buf⟩
    · rw [recursiveFillKvIn_eq, split, recursiveFillKv_append]
      rfl
    · have twice := List.mem_map_of_mem (f := File.path) member
      rw [List.map_append, same] at twice
      exact (List.nodup_cons.mp (List.nodup_middle.mp nodup)).1 twice
  · exact web_requestFor numServers topDir servable
      (zero_notMem_relativePath topDir.path found.nonempty) short
      (chars_fileKey topDir.path found.nonempty) Memory.zero
  · intro path contents size other otherContents otherSize found otherFound
      different same
    exact different
      (fileKey_injective found.nonempty otherFound.nonempty same)

end Both

/-! ### A file in a directory -/

namespace Page

private theorem sub_ne_zero : ∀ c ∈ bytes "sub", c ≠ 0 :=
  ne_zero_of_all (by decide)

private theorem leaf_ne_zero : ∀ c ∈ bytes "a.html", c ≠ 0 :=
  ne_zero_of_all (by decide)

def sub : FileName := ⟨⟨bytes "sub", sub_ne_zero⟩, by decide, by decide⟩

def leaf : FileName := ⟨⟨bytes "a.html", leaf_ne_zero⟩, by decide, by decide⟩

/-- `sub/a.html` and `a.html`. -/
def nested : Listing :=
  .dir sub (.reg leaf page.contents page.size .empty)
    (.reg leaf page.contents page.size .empty)

end Page

open Page Sample

theorem fill_lookup_agree_nested :
    nested.FileAt [leaf] page.contents page.size ∧
      (∃ before after,
        (∀ client, recursiveFillKvIn 1 www.path nested client =
          recursiveFillKv 1 before client >>= fun client =>
            dkvSet 1 (fileKey www.path [leaf]) page.contents page.size client
              >>= fun (_, client) => recursiveFillKv 1 after client) ∧
        (∀ file ∈ before ++ after, file.path ≠ fileKey www.path [leaf]) ∧
        Finishes (Cluster.environment mr) (Cluster.Halted mr)
          (¬ Fillable 1 before) (fun _ => Fillable 1 before)
          (recursiveFillKv 1 before client, cluster)) ∧
      ∃ fstr buffer, ∀ fresh client,
        web 1 www fresh (bytes "GET /a.html HTTP/1.0\n\n") Memory.zero
            client =
          dkvGet 1 (fileKey www.path [leaf]) client >>=
            fun (result, client) =>
              .done (respond fresh fstr buffer result client) := by
  have found : nested.FileAt [leaf] page.contents page.size :=
    .afterDir (.here (by decide))
  have distinct : nested.Distinct := by
    refine ⟨by decide, ⟨by decide, trivial⟩, by decide, trivial⟩
  have servable : Servable (relativePath [leaf]) :=
    ⟨by decide, by decide, by decide, by decide, by decide⟩
  have positive : 0 < 1 := by decide
  have small : 1 < unsignedRange := by decide
  obtain ⟨calls, asks⟩ := (@fill_lookup_agree 1 www nested mr cluster positive
    small mr_distinct cluster_initial distinct fun _ => Memory.zero).1
    [leaf] page.contents page.size found
  exact ⟨found, calls, asks servable (bytes "HTTP/1.0\n\n") (by decide)⟩

/-! ### Two files of one server that are too large -/

namespace Page

def large : FileName := ⟨⟨bytes "l", ne_zero_of_all (by decide)⟩,
  by decide, by decide⟩

def middle : FileName := ⟨⟨bytes "m", ne_zero_of_all (by decide)⟩,
  by decide, by decide⟩

/-- The first file is larger than a buffer, the second is not small. -/
def crowded : Listing :=
  .reg large page.contents 50000 (.reg middle page.contents 5000
    (.reg leaf page.contents page.size .empty))

/-- The files before the page. -/
def crowd : List File :=
  [⟨fileKey www.path [large], page.contents, 50000⟩,
    ⟨fileKey www.path [middle], page.contents, 5000⟩]

private theorem crowd_achieves :
    Achieves False True (fun _ _ => False)
      (recursiveFillKv 1 crowd client) Atomic.init := by
  have positive : 0 < 1 := by decide
  have small : 1 < unsignedRange := by decide
  have stops : ¬ FillableAfter 1 [] crowd := by decide +kernel
  refine wp_mono (fun _ _ both => stops both.1)
    (achieves_recursiveFillKv positive small crowd (tracks_init _)
      Leaves.init (fun file member => ?_) (by decide) fun _ => trivial)
  rcases List.mem_pair.mp member with rfl | rfl
  · decide
  · decide

end Page

/-- The process ends before `dkv_set` is called for the page, in every run. -/
theorem fill_lookup_fails :
    crowded.Distinct ∧ crowded.FileAt [leaf] page.contents page.size ∧
      Servable (relativePath [leaf]) ∧
      (∀ client, recursiveFillKvIn 1 www.path crowded client =
        recursiveFillKv 1 crowd client >>= fun client =>
          dkvSet 1 (fileKey www.path [leaf]) page.contents page.size client
            >>= fun (_, client) => .done client) ∧
      (∃ c, Steps (Cluster.environment mr)
        (recursiveFillKv 1 crowd client, cluster) (.crash, c)) ∧
      ∀ filled c, ¬ Steps (Cluster.environment mr)
        (recursiveFillKv 1 crowd client, cluster) (.done filled, c) := by
  refine ⟨⟨by decide, by decide, by decide, trivial⟩,
    .afterReg (.afterReg (.here (by decide))),
    ⟨by decide, by decide, by decide, by decide, by decide⟩, fun client => ?_,
    ?_, fun filled c steps => ?_⟩
  · rw [recursiveFillKvIn_eq]
    exact recursiveFillKv_append 1 crowd
      [⟨fileKey www.path [leaf], page.contents, page.size⟩] client
  · exact Cluster.steps_of_crash 20 _ (by decide +kernel)
  · obtain ⟨a, _, achieved⟩ := (simulation mr mr_distinct False).reachable
      (ClusterRel.init cluster_initial) crowd_achieves steps
    exact achieved a .refl

end RdmaKv.Nweb
