import LinuxNet.WebServer.Leftovers
import LinuxNet.WebServer.Turns

/-!
# `process_read` does not read the trace

Two objects that agree up to their traces are parsed alike.  The trace is
there for the theorems about what happens outside an object; here it is shown
that it decides nothing.
-/

namespace LinuxNet.WebServer

open LinuxNet.CString LinuxNet.CInt

namespace Conn

def traced (c : Conn) (trace : List Event) : Conn :=
  { c with trace := trace }

/-- The same result up to the trace. -/
def AlikeUpToTrace (result other : HttpCode × Conn) : Prop :=
  ∃ trace, other = (result.1, result.2.traced trace)

variable {c : Conn}

theorem Framed.traced (framed : c.Framed) (trace : List Event) :
    (c.traced trace).Framed :=
  { framed with }

theorem alike_traced (c : Conn) (trace : List Event) :
    Alike c (c.traced trace) :=
  ⟨{ c.leftovers with trace := trace }, rfl⟩

/-- `process_read` leaves the vectors alone. -/
structure VectorsKept (c d : Conn) : Prop where
  iv0_eq : d.iv0 = c.iv0
  iv1_eq : d.iv1 = c.iv1
  ivCount_eq : d.ivCount = c.ivCount

theorem doRequest_vectorsKept (c : Conn) (fs : FileSystem) :
    VectorsKept c (c.doRequest fs).2 := by
  unfold doRequest
  simp only
  repeat' split
  all_goals exact ⟨rfl, rfl, rfl⟩

theorem processRead_vectorsKept (framed : c.Framed) (fs : FileSystem) :
    VectorsKept c (c.processRead fs).2 := by
  obtain ⟨d, _, reads, ⟨_, last⟩ | requested⟩ :=
    returns_cases framed (returns_processRead framed fs)
  · rw [last]
    exact { reads with }
  · have last := congrArg Prod.snd requested
    simp only at last
    rw [last]
    have later := doRequest_vectorsKept d fs
    exact
      { iv0_eq := later.iv0_eq.trans reads.iv0_eq
        iv1_eq := later.iv1_eq.trans reads.iv1_eq
        ivCount_eq := later.ivCount_eq.trans reads.ivCount_eq }

/-- `process_read` returns the same code, and the same object up to the
trace. -/
theorem processRead_traced
    (framed : c.Framed) (fs : FileSystem) (trace : List Event) :
    AlikeUpToTrace (c.processRead fs) ((c.traced trace).processRead fs) := by
  obtain ⟨code, ⟨left, same⟩, files, sockets⟩ :=
    processRead_alike (alike_traced c trace) fs
  obtain ⟨sameStat, sameAddress⟩ := files (.inr ⟨rfl, rfl⟩)
  obtain ⟨sameSockfd, samePeer⟩ := sockets ⟨rfl, rfl⟩
  have here := processRead_vectorsKept framed fs
  have there := processRead_vectorsKept (framed.traced trace) fs
  rw [same] at there sameStat sameAddress sameSockfd samePeer
  refine ⟨left.trace, Prod.ext code ?_⟩
  rw [same]
  have sockfdEq : left.sockfd = (c.processRead fs).2.sockfd := sameSockfd
  have addressEq : left.address = (c.processRead fs).2.address := samePeer
  have iv0Eq : left.iv0 = (c.processRead fs).2.iv0 :=
    there.iv0_eq.trans here.iv0_eq.symm
  have iv1Eq : left.iv1 = (c.processRead fs).2.iv1 :=
    there.iv1_eq.trans here.iv1_eq.symm
  have ivCountEq : left.ivCount = (c.processRead fs).2.ivCount :=
    there.ivCount_eq.trans here.ivCount_eq.symm
  have statEq : left.fileStat = (c.processRead fs).2.fileStat := sameStat
  have fileEq : left.fileAddress = (c.processRead fs).2.fileAddress :=
    sameAddress
  unfold withLeftovers traced
  rw [sockfdEq, addressEq, iv0Eq, iv1Eq, ivCountEq, statEq, fileEq]

end Conn

end LinuxNet.WebServer
