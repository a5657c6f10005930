import RdmaKv.Ex4.Client

/-!
# The web server in `nweb23.c`

`main` fills the servers with the files below `top_dir` and then answers one
request after the other in one process.  The request buffer is static, the
client's globals live as long as the process, and `logger` may end it.

The writes to the socket are collected in the result.  What is written to
`nweb.log` is left out.
-/

namespace RdmaKv.Nweb

open ByteMemory Interaction

def version : Nat := 23

def bufsize : Nat := 8096

def pathMax : Nat := 4096

/-- `top_dir`, once `chdir` has accepted it. -/
structure TopDir where
  path : CString
  nonempty : path ≠ CString.empty
  fits : path.length < pathMax

def bytes (text : String) : List UInt8 :=
  text.toList.map fun c => UInt8.ofNat c.toNat

theorem ne_zero_of_all {chars : List UInt8}
    (all : chars.all (fun c => decide (c ≠ 0)) = true) : ∀ c ∈ chars, c ≠ 0 := by
  simpa using all

def extensions : List (String × String) :=
  [("gif", "image/gif"),
    ("jpg", "image/jpg"),
    ("jpeg", "image/jpeg"),
    ("png", "image/png"),
    ("ico", "image/ico"),
    ("zip", "image/zip"),
    ("gz", "image/gz"),
    ("tar", "image/tar"),
    ("htm", "text/html"),
    ("html", "text/html")]

/-! ## `logger` -/

inductive LogType where
  | error
  | log
  | forbidden
  | notFound

/-- What `logger` writes to the socket, and whether it ends the process. -/
def logger : LogType → List UInt8 × Bool
  | .error => ([], true)
  | .log => ([], false)
  | .forbidden =>
      (bytes ("HTTP/1.1 403 Forbidden\nContent-Length: 185\n" ++
        "Connection: close\nContent-Type: text/html\n\n" ++
        "<html><head>\n<title>403 Forbidden</title>\n</head><body>\n" ++
        "<h1>Forbidden</h1>\nThe requested URL, file type or operation is " ++
        "not allowed on this simple static file webserver.\n" ++
        "</body></html>\n"), true)
  | .notFound =>
      (bytes ("HTTP/1.1 404 Not Found\nContent-Length: 136\n" ++
        "Connection: close\nContent-Type: text/html\n\n" ++
        "<html><head>\n<title>404 Not Found</title>\n</head><body>\n" ++
        "<h1>Not Found</h1>\n" ++
        "The requested URL was not found on this server.\n" ++
        "</body></html>\n"), true)

/-! ## The checks of `web` -/

/-- `read`, the terminator after what was read, and the loop that removes CR
and LF. -/
def receive (request : List UInt8) (buffer : Memory) : Memory :=
  let request := request.take bufsize
  let ret := request.length
  let buffer := buffer.copy 0 ret (Memory.ofList request)
  let buffer :=
    if 0 < ret ∧ ret < bufsize then buffer.copy ret 1 Memory.zero
    else buffer.copy 0 1 Memory.zero
  fun i => if i < ret ∧ (buffer i = 13 ∨ buffer i = 10) then 42 else buffer i

def isGet (buffer : Memory) : Bool :=
  buffer.slice 0 4 = bytes "GET " || buffer.slice 0 4 = bytes "get "

/-- The loop that terminates the string at the second space, from `i` on.  It
does not stop at the terminator of the request. -/
def cutPath (buffer : Memory) : (i remaining : Nat) → Nat × Memory
  | i, 0 => (i, buffer)
  | i, remaining + 1 =>
      if buffer i = 32 then (i, buffer.copy i 1 Memory.zero)
      else cutPath buffer (i + 1) remaining

/-- The loop that looks for `..`. -/
def hasParent (buffer : Memory) (i : Nat) : Bool :=
  (List.range (i - 1)).any fun j => buffer j = 46 && buffer (j + 1) = 46

/-- No filename is converted to the index file. -/
def indexFile (buffer : Memory) : Memory :=
  if buffer.slice 0 6 = bytes "GET /" ++ [0] ∨
      buffer.slice 0 6 = bytes "get /" ++ [0] then
    buffer.copy 0 16 (Memory.ofList (bytes "GET /index.html"))
  else buffer

/-- The string at an offset.  The last byte of the buffer is never written, so
there always is one. -/
def stringAt (buffer : Memory) (offset : Nat) : CString :=
  (buffer.string? offset (bufsize + 1 - offset)).getD CString.empty

/-- The loop over the extensions: the type of the file, if it is supported. -/
def fileType (buffer : Memory) : Option String :=
  let chars := (stringAt buffer 0).chars
  (extensions.find? fun extension =>
    chars.drop (chars.length - (bytes extension.1).length) =
      bytes extension.1).map Prod.snd

/-- The buffer with the path and the type of the file, unless the request is
forbidden.  A failure of `read` is an empty request. -/
def checks (request : List UInt8) (buffer : Memory) :
    Option (Memory × String) :=
  if request = [] then none
  else
    let buffer := receive request buffer
    if isGet buffer = false then none
    else
      let (i, buffer) := cutPath buffer 4 (bufsize - 4)
      if hasParent buffer i then none
      else
        let buffer := indexFile buffer
        (fileType buffer).map fun fstr => (buffer, fstr)

/-! ## `web` -/

/-- What the variables of one call of `web` hold before they are assigned:
`file_length`, and the memory that `malloc` returns. -/
structure Uninitialised where
  fileLength : Nat
  heap : Memory

/-- The header for a file. -/
def header (len : Nat) (fstr : String) : List UInt8 :=
  bytes "HTTP/1.1 200 OK\nServer: nweb/" ++ bytes (toString version) ++
    bytes ".0\nContent-Length: " ++ bytes (toString len) ++
    bytes "\nConnection: close\nContent-Type: " ++ bytes fstr ++ bytes "\n\n"

/-- The process has ended, or it goes on with the buffer and the client. -/
inductive Outcome where
  | exited (written : List UInt8)
  | answered (written : List UInt8) (buffer : Memory) (client : Client)

def respond (fresh : Uninitialised) (fstr : String) (buffer : Memory)
    (result : GetResult) (client : Client) : Outcome :=
  let fileLength := result.length.getD fresh.fileLength
  let value :=
    match result.value with
    | some block => fresh.heap.copy 0 block.length (Memory.ofList block)
    | none => fresh.heap
  let reply := header fileLength fstr
  .answered (reply ++ value.slice 0 fileLength)
    (buffer.copy 0 (reply.length + 1) (Memory.ofList reply)) client

def web (numServers : Nat) (topDir : TopDir) (fresh : Uninitialised)
    (request : List UInt8) (buffer : Memory) (client : Client) : Run Outcome :=
  match checks request buffer with
  | none => .done (.exited (logger .forbidden).1)
  | some (buffer, fstr) =>
      dkvGet numServers (topDir.path.append (stringAt buffer 4)) client >>=
        fun (result, client) =>
          .done (respond fresh fstr buffer result client)

/-! ## `main` -/

/-- A regular file below `top_dir`. -/
structure File where
  path : CString
  contents : Memory
  size : Nat

/-- `recursive_fill_kv`, for the files in the order in which it finds them. -/
def recursiveFillKv (numServers : Nat) : List File → Client → Run Client
  | [], client => .done client
  | file :: files, client =>
      dkvSet numServers file.path file.contents file.size client >>=
        fun (_, client) => recursiveFillKv numServers files client

/-- The accept loop: what is written in answer to each request, until one of
them ends the process. -/
def acceptLoop (numServers : Nat) (topDir : TopDir) :
    List (Uninitialised × List UInt8) → Memory → Client →
      Run (List (List UInt8))
  | [], _, _ => .done []
  | (fresh, request) :: requests, buffer, client =>
      web numServers topDir fresh request buffer client >>= fun outcome =>
        match outcome with
        | .exited written => .done [written]
        | .answered written buffer client =>
            acceptLoop numServers topDir requests buffer client >>=
              fun replies => .done (written :: replies)

/-- `main`.  The static buffer is zero. -/
def main (numServers : Nat) (topDir : TopDir) (files : List File)
    (requests : List (Uninitialised × List UInt8)) (buf : Conn → Memory) :
    Run (List (List UInt8)) :=
  recursiveFillKv numServers files (Client.init buf) >>= fun client =>
    acceptLoop numServers topDir requests Memory.zero client

end RdmaKv.Nweb
