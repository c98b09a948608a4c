import UbuntuProjects.Memory.Format

/-!
# `err_funcs` and `log_funcs`

Both reporters format into a local array `buf` of MAXLINE bytes; the array starts at
address 0 and what lies behind it has the addresses from MAXLINE on. The formatted
message is what `vsnprintf` would write without a bound, without the terminating NUL.
-/

set_option autoImplicit false

namespace UbuntuProjects.ErrFuncs

open Memory

/-- SRCLINE: err_funcs.h:14 -/
def MAXLINE : ℕ := 4096

/-- `"\n"` -/
def newline : CString := ⟨[10], by decide⟩

/-- `": "` of `err_doit` -/
def colonSpace : CString := ⟨[58, 32], by decide⟩

/-- `":"` of `log_doit` -/
def colon : CString := ⟨[58], by decide⟩

/-- What a reporter leaves behind: the memory around `buf` and the string read from `buf`
by `fputs` or `syslog`, `none` when they read past the end of the array. -/
structure Report where
  buf : Tracked
  out : Option (List UInt8)

/-- `fputs(buf, ..)` and `syslog(.., buf)`. -/
def readString (m : Mem) : Option (List UInt8) :=
  (strlen m 0 MAXLINE).map (read m 0)

/-- The common body of `err_doit` and `log_doit`: `sep` is what stands in front of `%s` in
the format of `snprintf`, `error` the text of `strerror`. `none` when `strlen` finds no
NUL in `buf`. -/
def doit (sep : CString) (errnoflag : ℤ) (message : List UInt8) (error : CString)
    (buf : Tracked) : Option Report := do
  let buf := snprintf buf 0 MAXLINE message
  let buf ←
    if errnoflag ≠ 0 then do
      let len ← strlen buf.mem 0 MAXLINE
      pure (snprintf buf len (MAXLINE - len) (sep.bytes ++ error.bytes))
    else pure buf
  let buf ← strcat buf 0 MAXLINE newline
  return ⟨buf, readString buf.mem⟩

/-- SRCLINE: err_funcs.c:7-16 -/
def err_doit (errnoflag : ℤ) (message : List UInt8) (error : CString) (buf : Tracked) :
    Option Report :=
  doit colonSpace errnoflag message error buf

/-- SRCLINE: log_funcs.c:8-18 -/
def log_doit (errnoflag : ℤ) (message : List UInt8) (error : CString) (buf : Tracked) :
    Option Report :=
  doit colon errnoflag message error buf

/-- How a reporting function ends. -/
inductive Ending where
  | returns
  | exits (status : ℤ)
  | aborts
  deriving DecidableEq, Repr

/-- A reporting function: its reporter, the flag it passes on and how it ends. -/
structure Reporting where
  reporter : ℤ → List UInt8 → CString → Tracked → Option Report
  errnoflag : ℤ
  ending : Ending

/-- The report of a call; `error` is the text of the saved `errno` or of the parameter. -/
def Reporting.call (f : Reporting) (message : List UInt8) (error : CString)
    (buf : Tracked) : Option Report :=
  f.reporter f.errnoflag message error buf

/-- SRCLINE: err_funcs.c:18-23 -/
def err_ret : Reporting := ⟨err_doit, 1, .returns⟩

/-- SRCLINE: err_funcs.c:25-31 -/
def err_sys : Reporting := ⟨err_doit, 1, .exits 1⟩

/-- SRCLINE: err_funcs.c:33-39 -/
def err_exit : Reporting := ⟨err_doit, 1, .exits 1⟩

/-- SRCLINE: err_funcs.c:41-48 -/
def err_dump : Reporting := ⟨err_doit, 1, .aborts⟩

/-- SRCLINE: err_funcs.c:50-55 -/
def err_msg : Reporting := ⟨err_doit, 0, .returns⟩

/-- SRCLINE: err_funcs.c:57-63 -/
def err_quit : Reporting := ⟨err_doit, 0, .exits 1⟩

/-- SRCLINE: log_funcs.c:20-25 -/
def log_ret : Reporting := ⟨log_doit, 1, .returns⟩

/-- Like `log_ret`: it does not exit.
SRCLINE: log_funcs.c:27-32 -/
def log_sys : Reporting := ⟨log_doit, 1, .returns⟩

/-- SRCLINE: log_funcs.c:34-39 -/
def log_msg : Reporting := ⟨log_doit, 0, .returns⟩

/-- SRCLINE: log_funcs.c:41-47 -/
def log_quit : Reporting := ⟨log_doit, 0, .exits 2⟩

/-- A call with its format and arguments, which `vsnprintf` expands first. -/
def Reporting.format (f : Reporting) (fmt : CString) (args : List CString) (error : CString)
    (buf : Tracked) : Option Report := do
  let message ← expand error fmt.bytes args
  f.call message error buf

/-- `syslog(priority, buf)`: what stands in `buf` is the format, with no arguments behind
it; `error` is the text of `errno` at this call.
SRCLINE: log_funcs.c:17 -/
def syslog (error : CString) (r : Report) : Option (List UInt8) := do
  let format ← r.out
  expand error format []

/-- What a call of one of the log functions makes `syslog` emit; `errno` may have changed
between the two expansions. -/
def Reporting.emits (f : Reporting) (fmt : CString) (args : List CString)
    (error errorThen : CString) (buf : Tracked) : Option (List UInt8) := do
  let r ← f.format fmt args error buf
  syslog errorThen r

end UbuntuProjects.ErrFuncs
