import Mathlib.Logic.Relation
import NvmeVirt.Ftl.Frame
import NvmeVirt.Ssd.Advance

/-!
# `Ftl.Commands` — the flash commands of a page write and of the garbage collection

The translation layer touches the latency model only by the commands it hands to it. `ByCommands` says that one state of
the latency model comes from another by commands of a kind; the garbage collection issues commands of type `GC_IO`
and reads no empty range (`GcCommand`), and a page write at most one program before them (`HostPrograms`). All of this
holds for every latency model and from every state, whether or not its tables are consistent.
-/

namespace NvmeVirt

open Outcome

variable {τ : Type} {cfg : FtlConfig} {L : Latency τ} {s : Part τ}

/-! ## Commands of a kind -/

/-- `tm'` comes from `tm` by commands that satisfy `P`. -/
def ByCommands (L : Latency τ) (P : NandCmd → Prop) : τ → τ → Prop :=
  Relation.ReflTransGen fun tm tm' => ∃ ncmd, P ncmd ∧ tm' = (L.advanceNand tm ncmd).1

/-- A command of the garbage collection. -/
def GcCommand (ncmd : NandCmd) : Prop := ncmd.type = .gc ∧ ncmd.Issued

/-- The program of a wordline that a host write has filled. -/
def HostProgram (ncmd : NandCmd) : Prop := ncmd.type = .user ∧ ncmd.cmd = .write

theorem HostProgram.issued {ncmd : NandCmd} (h : HostProgram ncmd) : ncmd.Issued := by
  intro hread
  rw [h.2] at hread
  cases hread

/-- An empty transfer is never read. -/
theorem GcIssued.gcCommand (hpgsz : 0 < cfg.sp.pgsz) {ncmd : NandCmd} (h : GcIssued cfg ncmd) : GcCommand ncmd := by
  refine ⟨h.type_eq, fun hread => ?_⟩
  obtain ⟨cnt, hcnt, hxfer⟩ := h.read hread
  rw [hxfer]
  exact Nat.mul_pos hpgsz (Nat.pos_of_ne_zero hcnt)

/-! ## What issues nothing -/

theorem PageTaken.tm_eq {io : IoType} {ruh lpn : Nat} {p : Ppa} {s₁ : Part τ}
    (h : PageTaken cfg io ruh lpn s (p, s₁)) : s₁.tm = s.tm := by
  obtain ⟨_, ⟨⟩⟩ := h
  cases io <;> rfl

theorem OldInvalidated.tm_eq {lpn : Nat} {s₁ : Part τ} (h : OldInvalidated lpn s s₁) : s₁.tm = s.tm := by
  cases h <;> rfl

/-- Steps that keep the latency model. -/
theorem ByCommands.of_eq {P : NandCmd → Prop} {tm tm' : τ} (h : tm' = tm) : ByCommands L P tm tm' :=
  h ▸ Relation.ReflTransGen.refl

/-! ## The garbage collection -/

/-- **Garbage collection** hands commands of its own to the latency model. -/
theorem gcCommands_steps (cfg : FtlConfig) (L : Latency τ) (hpgsz : 0 < cfg.sp.pgsz) :
    GcSteps cfg L fun s s' => ByCommands L GcCommand s.tm s'.tm where
  refl _ := Relation.ReflTransGen.refl
  trans := Relation.ReflTransGen.trans
  move _ _ h := .of_eq h.tm_eq
  issue h _ := Relation.ReflTransGen.single ⟨_, h.gcCommand hpgsz, rfl⟩
  erase _ _ := .of_eq rfl
  emit v s := .of_eq (by unfold gcEmit; split <;> rfl)
  account _ _ _ _ _ _ _ _ := .of_eq rfl

/-! ## A page of a host write -/

/-- What a page write does to the latency model before it looks at its credits: at most one program, whose completion
    time is returned. -/
def HostPrograms (L : Latency τ) (tm : τ) (t : Option Nat) (tm' : τ) : Prop :=
  match t with
  | none => tm' = tm
  | some time => ∃ ncmd, HostProgram ncmd ∧ L.advanceNand tm ncmd = (tm', time)

theorem flushWordline_programs (cfg : FtlConfig) (L : Latency τ) (stime : Nat) (ppa : Ppa) (s : Part τ) :
    HostPrograms L s.tm (flushWordline cfg L stime ppa s).1 (flushWordline cfg L stime ppa s).2.tm := by
  unfold flushWordline
  split
  · exact ⟨_, ⟨rfl, rfl⟩, rfl⟩
  · exact rfl

/-- The wordline that the page completes is the only command before the credits are checked. -/
theorem PagePut.programs {stime ruh lpn : Nat} {t : Option Nat} {s₁ : Part τ}
    (h : PagePut cfg L stime ruh lpn s (t, s₁)) : HostPrograms L s.tm t s₁.tm := by
  cases h with
  | @mk s₁ s₂ p _ tm hold htaken hflush credits =>
      have hprograms := flushWordline_programs cfg L stime p s₂
      rw [hflush, htaken.tm_eq, hold.tm_eq] at hprograms
      exact hprograms

/-- **A page write**: the program of the wordline it filled, if it did, and commands of the garbage collection. -/
theorem writePage_times (L : Latency τ) (hpgsz : 0 < cfg.sp.pgsz) (stime ruh lpn : Nat) (s : Part τ) :
    Sat (fun _ => True) (fun r => ∃ tm, HostPrograms L s.tm r.1 tm ∧ ByCommands L GcCommand tm r.2.tm)
      (writePage cfg L stime ruh lpn s) := by
  unfold writePage
  refine (putPage_cases cfg L stime ruh lpn s).bind ?_
  rintro ⟨time, s₁⟩ hput
  refine ((gcCommands_steps cfg L hpgsz).checkAndRefill s₁).bind fun s₂ hgc => ?_
  exact ⟨s₁.tm, hput.programs, hgc⟩

end NvmeVirt
