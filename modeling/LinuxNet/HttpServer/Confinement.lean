import LinuxNet.HttpServer.Percent
import LinuxNet.Lib.LexicalPath
import LinuxNet.WebServer.RealFile
import LinuxNet.WebServer.Replies

/-!
# Which paths the three servers look up

None of the servers looks for `..` in a request target.  The web server puts
its root in front of the target and cuts the path to the length of
`m_real_file`.  The two HTTP servers decode the target and drop its first
byte, which makes the path an absolute one where the target starts with two
slashes.  A path stays in the served directory exactly when it does not climb
out of it, or leads back in by name.
-/

namespace LinuxNet.HttpServer

open LinuxNet.CString LinuxNet.LexicalPath LinuxNet.WebServer

/-- The second word of the request line, as both servers read it with
`"%[^ ] %[^ ]"`. -/
def sscanfTarget (request : List UInt8) : Option (List UInt8) :=
  let method := request.takeWhile (· ≠ 32)
  let rest := (request.drop method.length).dropWhile isspace
  let target := rest.takeWhile (· ≠ 32)
  if method = [] ∨ target = [] then none else some target

/-- The C string that starts at the second byte of the decoded target, or
`"./"` where the C string at the first one is listed. -/
def requestedName
    (indexPaths : List (List UInt8)) (target : List UInt8) : List UInt8 :=
  if cText (decodeFrom target) ∈ indexPaths then
    ascii "./"
  else
    cText ((decodeFrom target).drop 1)

/-- The name that `http_request` of the epoll server gives to `stat`. -/
def httpRequest (request : List UInt8) : Option (List UInt8) :=
  (sscanfTarget request).map (requestedName [ascii "/"])

/-- The name that `response_http` of the libevent server gives to `stat`. -/
def responseHttp (request : List UInt8) : Option (List UInt8) :=
  (sscanfTarget request).map (requestedName [ascii "/", ascii "/."])

/-- The path that `do_request` gives to `stat` after `parse_request_line`. -/
def webPath (c : Conn) (text : Nat) : List UInt8 :=
  cstr (c.parseRequestLine text).2.realFileFor 0

/-- The path leads to the directory or below it. -/
def StaysIn (root cwd : List (List UInt8)) (path : List UInt8) : Prop :=
  root <+: resolve cwd path

instance (root cwd : List (List UInt8)) (path : List UInt8) :
    Decidable (StaysIn root cwd path) := by
  unfold StaysIn
  infer_instance

/-- The directory that the web server serves. -/
def webRoot (cwd : List (List UInt8)) : List (List UInt8) :=
  cwd ++ [ascii "var", ascii "www", ascii "html"]

/-- A name that is absolute leads down into the working directory, another
one leads back where it climbs. -/
def NameConfined (cwd : List (List UInt8)) (name : List UInt8) : Prop :=
  if IsAbsolute name then
    cwd <+: (normalize (components name)).names
  else
    LeadsBack cwd (components name)

/-- The decoded target is listed, or the name behind its first byte is
confined. -/
def TargetConfined
    (indexPaths cwd : List (List UInt8)) (target : List UInt8) : Prop :=
  cText (decodeFrom target) ∈ indexPaths ∨
    NameConfined cwd (cText ((decodeFrom target).drop 1))

theorem staysIn_cwd_iff (cwd : List (List UInt8)) (name : List UInt8) :
    StaysIn cwd cwd name ↔ NameConfined cwd name := by
  unfold StaysIn NameConfined resolve
  by_cases absolute : IsAbsolute name
  · rw [if_pos absolute, if_pos absolute, walk_root]
  · rw [if_neg absolute, if_neg absolute, prefix_walk_iff]

theorem staysIn_index (cwd : List (List UInt8)) :
    StaysIn cwd cwd (ascii "./") :=
  List.prefix_refl cwd

theorem staysIn_requestedName_iff
    (indexPaths cwd : List (List UInt8)) (target : List UInt8) :
    StaysIn cwd cwd (requestedName indexPaths target) ↔
      TargetConfined indexPaths cwd target := by
  unfold requestedName TargetConfined
  by_cases listed : cText (decodeFrom target) ∈ indexPaths
  · rw [if_pos listed]
    exact iff_of_true (staysIn_index cwd) (Or.inl listed)
  · rw [if_neg listed, staysIn_cwd_iff]
    exact (or_iff_right listed).symm

theorem target_starts
    {line target : List UInt8} (isRequestLine : RequestLine line target) :
    ∃ rest, target = 47 :: rest := by
  obtain ⟨_, _, _, _, _, _, _, _, _, _, _, _, _, _, _, names⟩ :=
    isRequestLine
  cases names with
  | path rest => exact ⟨rest, rfl⟩
  | absolute rest _ _ => exact ⟨rest, rfl⟩

theorem webPath_eq
    {c : Conn} {text : Nat} {line target : List UInt8}
    (string : StringAt c.readBuf text line)
    (isRequestLine : RequestLine line target) (ends : c.EndsInNul) :
    webPath c text = fileName target := by
  have parsed :=
    (Conn.requestLineOn_of_requestLine isRequestLine string).2
  have reads :=
    Conn.ReadsOnly.edit (Conn.requestLineOn_edit c text line)
  obtain ⟨_, url, isUrl, named⟩ := parsed
  have urlText :
      (Conn.requestLineOn c text line).2.urlText = target := by
    unfold Conn.urlText
    rw [isUrl]
    exact named.cstr_eq
  unfold webPath
  rw [Conn.parseRequestLine_eq string,
    Conn.cstr_realFileFor_of_endsInNul (reads.endsInNul ends), urlText]
  rfl

/-- After any calls on an initialised slot, the object on which `process_read`
parses a line has a NUL at the end of `m_real_file`: `init` put it there. -/
theorem endsInNul_parsing
    {slot reader c : Conn} {sockfd : Int} {address : SockAddr}
    {calls : List ReaderCall}
    (ran :
      StepSystem.run Conn.call (slot.initWith sockfd address) calls =
        some reader)
    (reads : Conn.ReadsOnly reader c) : c.EndsInNul := by
  have kept : reader.Framed ∧ reader.EndsInNul :=
    StepSystem.run_keeps (fun c => c.Framed ∧ c.EndsInNul)
      (fun _ _ _ kept called =>
        ⟨Conn.framed_call kept.1 called,
          Conn.endsInNul_call kept.1 kept.2 called⟩)
      ⟨Conn.init_framed _, Conn.endsInNul_init _⟩ ran
  exact reads.endsInNul kept.2

theorem staysIn_fileName_iff
    (cwd : List (List UInt8)) (rest : List UInt8) :
    StaysIn (webRoot cwd) cwd (fileName (47 :: rest)) ↔
      LeadsBack (webRoot cwd)
        (components
          ((47 :: rest).take (filenameLen - docRoot.length - 1))) := by
  have shape :
      fileName (47 :: rest) =
        docRoot ++
          47 :: rest.take (filenameLen - docRoot.length - 2) := rfl
  have rooted :
      components docRoot =
        [.here, .name (ascii "var"), .name (ascii "www"),
          .name (ascii "html")] := by
    decide
  have served : walk cwd (components docRoot) = webRoot cwd := by
    rw [rooted, webRoot]
    simp [walk, enter]
  have relative : ¬ IsAbsolute (fileName (47 :: rest)) := by
    have first : (fileName (47 :: rest)).head? = some 46 := rfl
    rw [IsAbsolute, first]
    decide
  have taken :
      (47 :: rest).take (filenameLen - docRoot.length - 1) =
        [] ++ 47 :: rest.take (filenameLen - docRoot.length - 2) := rfl
  have nowhere : walk (webRoot cwd) (components []) = webRoot cwd := rfl
  unfold StaysIn resolve
  rw [if_neg relative, shape, components_append_slash, walk_append, served,
    ← prefix_walk_iff, taken, components_append_slash, walk_append, nowhere]

/-- An object that has received a request line for `/..`. -/
def climbingConn : Conn :=
  { Conn.zeroed.init with readBuf := ascii "GET /.. HTTP/1.1" ++ [0] }

theorem requestLine_climbing :
    RequestLine (ascii "GET /.. HTTP/1.1") (ascii "/..") :=
  requestLine_get (show NoBlank (ascii "..") by decide)

theorem string_climbing :
    StringAt climbingConn.readBuf 0 (ascii "GET /.. HTTP/1.1") :=
  StringAt.of_drop_eq
    (show climbingConn.readBuf.drop 0 = ascii "GET /.. HTTP/1.1" ++ 0 :: []
      from rfl)
    (by decide)

end LinuxNet.HttpServer
