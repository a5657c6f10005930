import RdmaKv.Ex4.FillKeys

/-!
# A directory on the web

nweb as a whole: it fills the servers with the files of a directory and then
answers requests for them.
-/

namespace RdmaKv.Nweb

open ByteMemory Interaction

/-- `main` of a directory. -/
def serveDirectory (numServers : Nat) (topDir : TopDir) (listing : Listing)
    (requests : List (Uninitialised × List UInt8)) (buf : Conn → Memory) :
    Run (List (List UInt8)) :=
  recursiveFillKvIn numServers topDir.path listing (Client.init buf) >>=
    fun client => acceptLoop numServers topDir requests Memory.zero client

structure Visit where
  path : List FileName
  contents : Memory
  size : Nat
  rest : List UInt8
  fresh : Uninitialised

namespace Visit

def request (v : Visit) : List UInt8 := requestFor (relativePath v.path) v.rest

def file (dirname : CString) (v : Visit) : File :=
  ⟨fileKey dirname v.path, v.contents, v.size⟩

def fstr (v : Visit) : String := (typeOf v.request).getD ""

/-- The file under a header with its length. -/
def right (v : Visit) : List UInt8 :=
  header v.size v.fstr ++ v.contents.slice 0 v.size

/-- The directory has the file, a request can name it and it leaves a byte of
its buffer. -/
structure Possible (listing : Listing) (v : Visit) : Prop where
  found : listing.FileAt v.path v.contents v.size
  servable : Servable (relativePath v.path)
  small : v.request.length < bufsize
  room : v.size < maxTestSize

variable {v : Visit} {topDir : TopDir} {listing : Listing}

theorem Possible.nonempty (possible : Possible listing v) : v.path ≠ [] := by
  obtain ⟨name, _, rest, same⟩ := possible.found.first
  rw [same]
  exact List.cons_ne_nil name rest

theorem Possible.mem (possible : Possible listing v) (dirname : CString) :
    v.file dirname ∈ findFiles dirname listing :=
  mem_findFiles_of_fileAt dirname possible.found

theorem Possible.stocked (possible : Possible listing v)
    (distinct : listing.Distinct) (dirname : CString) :
    stocked (findFiles dirname listing) (fileKey dirname v.path) =
      some (v.file dirname) := by
  have member := possible.mem dirname
  cases found : Nweb.stocked (findFiles dirname listing)
      (fileKey dirname v.path) with
  | none => exact absurd rfl (stocked_none.mp found _ member)
  | some other =>
      obtain ⟨otherMember, samePath⟩ := stocked_mem found
      exact congrArg some (List.inj_on_of_nodup_map
        (nodup_findFiles distinct dirname) otherMember member samePath)

/-- The checks let the request pass, whatever the buffer holds. -/
theorem Possible.checks (possible : Possible listing v) (topDir : TopDir)
    (buffer : Memory) :
    ∃ after, Nweb.checks v.request buffer = some (after, v.fstr) ∧
      topDir.path.append (stringAt after 4) = fileKey topDir.path v.path := by
  have chars := chars_fileKey topDir.path possible.nonempty
  have nonzero : 0 ∉ relativePath v.path := by
    intro member
    have inside : 0 ∈ (fileKey topDir.path v.path).chars := by
      rw [chars]
      exact List.mem_append_right _ (List.mem_cons_of_mem _ member)
    exact (fileKey topDir.path v.path).nonzero 0 inside rfl
  obtain ⟨fstr, isType⟩ :=
    @typeOf_requestFor _ v.rest possible.servable nonzero
  have isRequest := isRequest_requestFor possible.servable possible.small
  have passes := checked_eq buffer isRequest
  rw [seesParent_requestFor possible.servable possible.small buffer, isType]
    at passes
  obtain ⟨⟨after, type⟩, checks, pair⟩ := Option.map_eq_some_iff.mp passes
  obtain ⟨path, rfl⟩ := Prod.mk.inj pair
  refine ⟨after, ?_, CString.ext ?_⟩
  · rw [Visit.fstr, Visit.request, isType]
    exact checks
  · change topDir.path.chars ++ (stringAt after 4).chars = _
    rw [path, chars, ← drop_lineOf isRequest,
      lineOf_requestFor possible.servable nonzero]
    rfl

def cachedAfter (dirname : CString) (visits : List Visit) :
    Option File → Option File :=
  (visits.map (file dirname)).foldl File.remember

/-- What is written in answer to some requests. -/
def replies (dirname : CString) :
    Option File → List Visit → List (List UInt8)
  | _, [] => []
  | cached, v :: visits =>
      (v.file dirname).reply cached v.fresh v.fstr ::
        replies dirname (File.remember cached (v.file dirname)) visits

private theorem length_replies (dirname : CString) (visits : List Visit)
    (cached : Option File) :
    (replies dirname cached visits).length = visits.length := by
  induction visits generalizing cached with
  | nil => rfl
  | cons v visits inductionHypothesis =>
      exact congrArg (· + 1) (inductionHypothesis _)

private theorem getElem?_replies {dirname : CString} {visits : List Visit}
    {i : Nat}
    (cached : Option File) (isVisit : visits[i]? = some v) :
    (replies dirname cached visits)[i]? = some ((v.file dirname).reply
      (cachedAfter dirname (visits.take i) cached) v.fresh v.fstr) := by
  induction visits generalizing cached i with
  | nil => exact absurd isVisit (by simp)
  | cons first visits inductionHypothesis =>
      cases i with
      | zero =>
          obtain rfl := Option.some.inj isVisit
          rfl
      | succ i => exact inductionHypothesis _ isVisit

/-- The reply is right unless the file is read through the cache. -/
theorem Possible.right_iff (possible : Possible listing v) (dirname : CString)
    (cached : Option File) :
    (v.file dirname).reply cached v.fresh v.fstr = v.right ↔
      (cached.map File.path = some (fileKey dirname v.path) →
        v.fresh.fileLength = v.size) := by
  refine (File.reply_eq_iff v.fstr).trans ?_
  split
  · rename_i hit
    exact ⟨fun length _ => length, fun right => right hit⟩
  · rename_i miss
    exact iff_of_true (Or.inr (Or.inl possible.room)) fun hit =>
      absurd hit miss

end Visit

section Served

variable {numServers : Nat} {topDir : TopDir} {listing : Listing}
  {ledger : Ledger} {client : Client} {a : Atomic} {v : Visit}

/-- What is cached after a visit. -/
private theorem sent_eq {s : Session} (distinct : listing.Distinct)
    (possible : v.Possible listing)
    (offers : Offers numServers (findFiles topDir.path listing) s.cached ledger)
    (buffer : Memory) :
    s.sent? buffer (v.file topDir.path) =
      some ⟨File.remember s.cached (v.file topDir.path), buffer⟩ := by
  obtain ⟨cached, start⟩ := s
  have member := possible.mem topDir.path
  unfold Session.sent? File.remember
  by_cases isEager : (v.file topDir.path).IsEager
  · rw [if_pos (Or.inr isEager), if_pos isEager]
  rw [if_neg isEager]
  by_cases hit : cached.map File.path = some (v.file topDir.path).path
  · obtain ⟨other, rfl, samePath⟩ := Option.map_eq_some_iff.mp hit
    have same := List.inj_on_of_nodup_map
      (nodup_findFiles distinct topDir.path) (offers.cachedFile other rfl).1
      member samePath
    rw [if_pos (Or.inl hit), same]
  · have room : (v.file topDir.path).size < maxTestSize := possible.room
    rw [if_neg (not_or.mpr ⟨hit, isEager⟩), if_pos room]

/-- One request. -/
private theorem achieves_visit {mayCrash : Prop} {s : Session}
    (positive : 0 < numServers) (few : numServers < unsignedRange)
    (distinct : listing.Distinct)
    (accepted : ∀ file ∈ findFiles topDir.path listing, file.Accepted)
    (possible : v.Possible listing) (tracks : Tracks ledger client a)
    (offers : Offers numServers (findFiles topDir.path listing) s.cached
      ledger) :
    Achieves False mayCrash
      (fun outcome a' => ∃ s' : Session,
        s'.cached = File.remember s.cached (v.file topDir.path) ∧
        outcome.written =
          (v.file topDir.path).reply s.cached v.fresh v.fstr ∧
        outcome.Reaches numServers (findFiles topDir.path listing) s' a')
      (web numServers topDir v.fresh v.request s.buffer client) a := by
  obtain ⟨after, checks, isKey⟩ := possible.checks topDir s.buffer
  have stored := possible.stocked distinct topDir.path
  have answers : s.reply? topDir (findFiles topDir.path listing) v.fresh
      v.request =
        some ((v.file topDir.path).reply s.cached v.fresh v.fstr) := by
    simp only [Session.reply?, checks, isKey, stored, Option.map_some]
  refine wp_mono ?_ (achieves_web positive few tracks offers accepted answers)
  rintro outcome a' ⟨isWritten, goes⟩
  have next : ∃ s', s.next? topDir (findFiles topDir.path listing) v.fresh
      v.request = some s' ∧
        s'.cached = File.remember s.cached (v.file topDir.path) := by
    simp only [Session.next?, checks, isKey, stored, Option.bind_some,
      sent_eq distinct possible offers]
    exact ⟨_, rfl, rfl⟩
  obtain ⟨s', next, isCached⟩ := next
  exact ⟨s', isCached, isWritten, goes s' next⟩

/-- All requests. -/
private theorem achieves_visits {mayCrash : Prop} {s : Session}
    (positive : 0 < numServers) (few : numServers < unsignedRange)
    (distinct : listing.Distinct)
    (accepted : ∀ file ∈ findFiles topDir.path listing, file.Accepted)
    (visits : List Visit) (possible : ∀ v ∈ visits, v.Possible listing)
    (tracks : Tracks ledger client a)
    (offers : Offers numServers (findFiles topDir.path listing) s.cached
      ledger) :
    Achieves False mayCrash
      (fun replies _ => replies = Visit.replies topDir.path s.cached visits)
      (acceptLoop numServers topDir
        (visits.map fun v => (v.fresh, v.request)) s.buffer client) a := by
  induction visits generalizing s ledger client a with
  | nil => exact achieves_done rfl
  | cons v visits inductionHypothesis =>
      refine wp_bind (wp_mono ?_ (achieves_visit positive few distinct accepted
        (possible v List.mem_cons_self) tracks offers))
      rintro outcome a' ⟨s', isCached, isWritten, client', ledger', isOutcome,
        tracks', offers'⟩
      rw [isOutcome]
      refine wp_bind (wp_mono ?_ (inductionHypothesis
        (fun other member => possible other (List.mem_cons_of_mem _ member))
        tracks' offers'))
      rintro replies a'' rfl
      refine achieves_done ?_
      rw [isWritten, isCached]
      rfl

/-- A directory whose files the servers accept is on the web: in every run that
finishes each request is answered, and the answer is the file under its
length unless the file is the last one that went through a buffer and
`file_length` does not happen to hold its size. -/
theorem directory_served {regMr : Nat → Nat → Option IbvMr} {c : Cluster}
    (positive : 0 < numServers) (few : numServers < unsignedRange)
    (distinctMrs : ∀ id, DistinctMrs (regMr id))
    (initial : Cluster.Initial regMr c) (distinct : listing.Distinct)
    (accepted : ∀ file ∈ findFiles topDir.path listing, file.Accepted)
    (visits : List Visit) (possible : ∀ v ∈ visits, v.Possible listing)
    (buf : Conn → Memory) :
    Finishes (Cluster.environment regMr) (Cluster.Halted regMr) False
      (fun replies => replies.length = visits.length ∧
        ∀ i v, visits[i]? = some v →
          (replies[i]? = some v.right ↔
            ((Visit.cachedAfter topDir.path (visits.take i)
                ((findFiles topDir.path listing).foldl File.remember
                  none)).map File.path = some (fileKey topDir.path v.path) →
              v.fresh.fileLength = v.size)))
      (serveDirectory numServers topDir listing
        (visits.map fun v => (v.fresh, v.request)) buf, c) := by
  refine @Achieves.finishes regMr c _ False False _ _ distinctMrs initial ?_
  unfold serveDirectory
  rw [recursiveFillKvIn_eq]
  refine wp_bind (wp_mono ?_ (achieves_fill positive few accepted
    (nodup_findFiles distinct topDir.path) buf))
  rintro client a ⟨ledger, tracks, offers⟩
  have offers : Offers numServers (findFiles topDir.path listing)
      (Session.start (findFiles topDir.path listing)).cached ledger := offers
  refine wp_mono ?_ (achieves_visits positive few distinct accepted visits
    possible tracks offers)
  rintro replies a' rfl
  refine ⟨Visit.length_replies _ _ _, fun i v isVisit => ?_⟩
  rw [Visit.getElem?_replies _ isVisit, Option.some.injEq]
  exact (possible v (List.mem_of_getElem? isVisit)).right_iff topDir.path _

end Served

/-! ### Two files -/

namespace Page

/-- `sub/a.html` and then `a.html`. -/
def tour : List Visit :=
  [⟨[sub, leaf], page.contents, page.size, bytes "HTTP/1.0\n\n", cleared⟩,
    ⟨[leaf], page.contents, page.size, bytes "HTTP/1.0\n\n", cleared⟩]

private theorem nested_distinct : nested.Distinct :=
  ⟨by decide, ⟨by decide, trivial⟩, by decide, trivial⟩

private theorem tour_possible : ∀ v ∈ tour, v.Possible nested := by
  intro v member
  rcases List.mem_cons.mp member with rfl | member
  · exact ⟨.inDir (by decide) (.here (by decide)),
      ⟨by decide, by decide, by decide, by decide, by decide⟩, by decide,
      by decide⟩
  · obtain rfl := List.mem_singleton.mp member
    exact ⟨.afterDir (.here (by decide)),
      ⟨by decide, by decide, by decide, by decide, by decide⟩, by decide,
      by decide⟩

private theorem nested_accepted :
    ∀ file ∈ findFiles www.path nested, file.Accepted := by
  intro file member
  have two : findFiles www.path nested =
      [⟨fileKey www.path [sub, leaf], page.contents, page.size⟩,
        ⟨fileKey www.path [leaf], page.contents, page.size⟩] := by
    simp only [nested, findFiles]
    rfl
  rw [two] at member
  rcases List.mem_cons.mp member with rfl | member
  · exact ⟨by decide, by decide, by decide⟩
  · obtain rfl := List.mem_singleton.mp member
    exact ⟨by decide, by decide, by decide⟩

end Page

open Page Sample in
theorem directory_served_nested :
    Finishes (Cluster.environment mr) (Cluster.Halted mr) False
      (fun replies => replies.length = 2 ∧
        ∀ i v, tour[i]? = some v →
          (replies[i]? = some v.right ↔
            ((Visit.cachedAfter www.path (tour.take i)
                ((findFiles www.path nested).foldl File.remember
                  none)).map File.path = some (fileKey www.path v.path) →
              v.fresh.fileLength = v.size)))
      (serveDirectory 1 www nested
        (tour.map fun v => (v.fresh, v.request)) client.buf, cluster) :=
  directory_served (by decide) (by decide) mr_distinct cluster_initial
    nested_distinct nested_accepted tour tour_possible client.buf

end RdmaKv.Nweb
