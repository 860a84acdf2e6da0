import Mathlib.Data.List.TakeDrop
import LinuxNet.WebServer.Indices
import LinuxNet.WebServer.TargetKept

/-!
# Targets and file names

`do_request` copies `doc_root` and the target into `m_real_file`, and the copy
stops after 185 bytes of the target without a word.  `init` has put a NUL
behind them, so what `stat` and `open` get is the root and the first 185 bytes
of the target.  `real_files_iff` names the pairs of requests for which this
makes no difference.
-/

namespace LinuxNet.WebServer

open LinuxNet.CString LinuxNet.StepSystem

/-- There is a file that everyone may read under a path, and it is no
directory. -/
def FileSystem.HasFile (fs : FileSystem) (path : List UInt8) : Prop :=
  ∃ fileStat, fs.Serves path fileStat

namespace Conn

variable {c d e f : Conn}

theorem EndsInNul.doRequest (ends : c.EndsInNul) (fs : FileSystem) :
    (c.doRequest fs).2.EndsInNul := by
  have named : c.realFileFor.drop (docRoot.length + urlRoom) = [0] := by
    rw [drop_realFileFor]
    exact ends
  have requested := requested_doRequest fs c
  generalize c.doRequest fs = result at requested ⊢
  rcases result with ⟨code, d⟩
  cases requested <;> exact named

theorem ReadsOnly.endsInNul (reads : ReadsOnly c d) (ends : c.EndsInNul) :
    d.EndsInNul := by
  unfold EndsInNul
  rw [reads.realFile_eq]
  exact ends

theorem endsInNul_init (c : Conn) : c.init.EndsInNul := by
  show (List.replicate filenameLen (0 : UInt8)).drop _ = [0]
  rw [List.drop_replicate]
  rfl

theorem endsInNul_call
    {label : ReaderCall} (framed : c.Framed) (ends : c.EndsInNul)
    (called : c.call label = some d) : d.EndsInNul := by
  cases label with
  | initWith sockfd address =>
      cases called
      exact endsInNul_init _
  | init =>
      cases called
      exact endsInNul_init c
  | read blocks last =>
      simp only [call] at called
      split at called
      · next receivable =>
          cases called
          rcases read_snd framed receivable last with same | received
          · rw [same]
            exact ends
          · rw [received]
            exact ends
      · cases called
  | processRead fs =>
      cases called
      obtain ⟨d, _, reads, waits | refused | ⟨_, requested⟩⟩ :=
        processRead_cases framed fs
      · rw [waits]
        exact reads.endsInNul ends
      · rw [refused]
        exact reads.endsInNul ends
      · rw [requested]
        exact (reads.endsInNul ends).doRequest fs

/-- The object on which `process_read` calls `do_request`, after any calls on
an initialised slot. -/
theorem endsInNul_of_run
    {slot : Conn} {sockfd : Int} {address : SockAddr} {calls : List ReaderCall}
    (ran : run call (slot.initWith sockfd address) calls = some c)
    (reaches : c.ReachesDoRequest e) : e.EndsInNul := by
  obtain ⟨framed, ends⟩ : c.Framed ∧ c.EndsInNul :=
    run_keeps (fun c => c.Framed ∧ c.EndsInNul)
      (fun _ _ _ kept called =>
        ⟨framed_call kept.1 called, endsInNul_call kept.1 kept.2 called⟩)
      ⟨init_framed _, endsInNul_init _⟩ ran
  have after : (e.doRequest noFiles).2.EndsInNul := by
    have called :
        c.call (.processRead noFiles) = some (c.processRead noFiles).2 :=
      rfl
    rw [← reaches noFiles]
    exact endsInNul_call framed ends called
  rw [doRequest_noFiles] at after
  unfold EndsInNul at after ⊢
  rw [← drop_realFileFor]
  exact after

/-- `do_request` does not refuse exactly when it finds a file. -/
theorem doRequest_fst_iff (fs : FileSystem) (ends : c.EndsInNul) :
    (c.doRequest fs).1 = .fileRequest ↔
      fs.HasFile (docRoot ++ c.urlText.take urlRoom) := by
  rw [← cstr_realFileFor_of_endsInNul ends]
  unfold doRequest FileSystem.HasFile FileSystem.Serves
  simp only
  cases stat : fs.stat (cstr c.realFileFor 0) with
  | none =>
      exact iff_of_false (by simp) (by simp)
  | some fileStat =>
      simp only [Option.some.injEq]
      split
      · next unreadable =>
          refine iff_of_false (by simp) ?_
          rintro ⟨found, rfl, readable, _⟩
          exact readable unreadable
      · next readable =>
          split
          · next directory =>
              refine iff_of_false (by simp) ?_
              rintro ⟨found, rfl, _, notDirectory⟩
              exact notDirectory directory
          · next notDirectory =>
              refine iff_of_true ?_ ⟨fileStat, rfl, readable, notDirectory⟩
              cases fs.mmap (cstr c.realFileFor 0) fileStat.stSize <;> rfl

theorem doRequest_realFile (fs : FileSystem) (c : Conn) :
    (c.doRequest fs).2.realFile = c.realFileFor := by
  have requested := requested_doRequest fs c
  generalize c.doRequest fs = result at requested ⊢
  rcases result with ⟨code, d⟩
  cases requested <;> rfl

/-- `do_request` refuses, or what it passes to `stat` and `open` is the root
and the whole target. -/
def NamesTarget (fs : FileSystem) (c : Conn) : Prop :=
  (c.doRequest fs).1 ≠ .fileRequest ∨
    cstr (c.doRequest fs).2.realFile 0 = docRoot ++ c.urlText

/-- Two requests name their targets, and they are not served one file for
different targets. -/
def NameTheirTargets (fs gs : FileSystem) (c d : Conn) : Prop :=
  c.NamesTarget fs ∧ d.NamesTarget gs ∧
    ((c.doRequest fs).1 = .fileRequest →
      (d.doRequest gs).1 = .fileRequest →
      c.urlText ≠ d.urlText →
        cstr (c.doRequest fs).2.realFile 0 ≠
          cstr (d.doRequest gs).2.realFile 0)

/-- The target fits into `m_real_file`, or there is no file to serve under its
beginning. -/
def TargetFits (fs : FileSystem) (c : Conn) : Prop :=
  c.urlText.length ≤ urlRoom ∨
    ¬ fs.HasFile (docRoot ++ c.urlText.take urlRoom)

theorem namesTarget_iff (fs : FileSystem) (ends : c.EndsInNul) :
    c.NamesTarget fs ↔ c.TargetFits fs := by
  unfold NamesTarget TargetFits
  rw [doRequest_realFile, cstr_realFileFor_of_endsInNul ends, ne_eq,
    doRequest_fst_iff fs ends, List.append_cancel_left_eq,
    List.take_eq_self_iff, or_comm]

def requestFor (target : List UInt8) : List ReaderCall :=
  [.read [ascii "GET " ++ target ++ ascii " HTTP/1.1" ++ crlf ++ crlf]
    .eagain]

def longTarget (last : UInt8) : List UInt8 :=
  47 :: List.replicate 185 97 ++ [last]

def smallFiles : FileSystem where
  stat := fun _ => some ⟨0o100644, 1⟩
  mmap := fun _ _ => some 4096

/-- What comes of a request that is read into a new connection. -/
theorem exists_requestFor
    {target path : List UInt8}
    (answer :
      (run call (zeroed.initWith 5 ⟨0, 0⟩) (requestFor target)).map
          (fun c =>
            ((c.processRead noFiles).1, (c.processRead noFiles).2.urlText,
              cstr (c.processRead noFiles).2.realFile 0)) =
        some (.noResource, target, path)) :
    ∃ c e, run call (zeroed.initWith 5 ⟨0, 0⟩) (requestFor target) = some c ∧
      c.ReachesDoRequest e ∧ e.urlText = target ∧
      cstr e.realFileFor 0 = path := by
  obtain ⟨c, ran, result⟩ := Option.map_eq_some_iff.mp answer
  obtain ⟨code, rest⟩ := Prod.mk.inj result
  obtain ⟨url, file⟩ := Prod.mk.inj rest
  have framed : c.Framed :=
    run_keeps Conn.Framed (fun _ _ _ framed => framed_call framed)
      (init_framed _) ran
  obtain ⟨e, reaches⟩ := (exists_reachesDoRequest_iff framed).mpr code
  rw [reaches noFiles, doRequest_noFiles] at url file
  exact ⟨c, e, ran, reaches, url, file⟩

end Conn

end LinuxNet.WebServer
