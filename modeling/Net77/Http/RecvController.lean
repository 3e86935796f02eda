import Net77.Http.Parsing
import Net77.Receive

/-! `lib/http/recv_controller.c`. The controller never uses the capacity it is
told. Its `char` and `size_t` arithmetic stays within `ssize_t` except where an
overflow is tested for here. -/
namespace Net77.Http

open Net77.Base

/-- `HTTP_RECV_CONTROLLER_INIT_BATCH_RECV_SIZE`. -/
def initBatchRecvSize : Nat := 1

def contentLengthHeaderName : Bytes :=
  ascii ['C', 'o', 'n', 't', 'e', 'n', 't', '-', 'L', 'e', 'n', 'g', 't', 'h', ':']

def headerFieldDelimiter : Bytes := crlf

def endOfHeader : Bytes := crlf ++ crlf

/-- A sum in `ssize_t`. -/
def addSsize (a b : Int) : Except Stop Int :=
  if -2 ^ 63 ≤ a + b ∧ a + b < 2 ^ 63 then pure (a + b) else .error (.fault .intOverflow)

/-- The number, and what is stored through `out_terminator`, which only happens
with the result -1. The run of digits may have blanks inside. -/
def strToUint : Bytes → (out : Int) → (hasFoundLegal : Bool) → Except Stop (Int × Option Byte)
  | [], out, _ => pure (out, none)
  | c :: rest, out, hasFoundLegal =>
    if isDigit c then
      if 2 ^ 63 ≤ out * 10 + c.toNat then .error (.fault .intOverflow)
      else strToUint rest (out * 10 + c.toNat - 48) true
    else if c = space ∨ c = tab then strToUint rest out hasFoundLegal
    else if !hasFoundLegal then pure (-1, some c)
    else pure (out, none)

def getHeaderSize (header : Bytes) : Int :=
  match findAsciiSubstringCaseInsensitive header endOfHeader with
  | some eoh => eoh + endOfHeader.length
  | none => -1

/-- `is_cte` is never used. The version is an `int` that is 0 at first. -/
structure HttpReceiveControllerState where
  ogMaxLen : Int
  contentLength : Int
  httpVersion : Nat
  phase : Nat
  deriving DecidableEq, Repr

/-- The memory that `recvAllData` zeroes for every call. -/
def HttpReceiveControllerState.zeroed : HttpReceiveControllerState := ⟨0, 0, 0, 0⟩

/-- `optMin((ssize_t) n + HTTP_RECV_CONTROLLER_INIT_BATCH_RECV_SIZE, og_max_len)`. -/
def nextByte (n : Nat) (ogMaxLen : Int) : Int := optMin (n + initBatchRecvSize) ogMaxLen

/-- `case 1`: receive the first line to parse the version. -/
def recvFirstLine (buf : Bytes) (n : Nat) (st : HttpReceiveControllerState) :
    Except Stop (Int × RecvAction × HttpReceiveControllerState) :=
  let maxLen := nextByte n st.ogMaxLen
  match findAsciiSubstringCaseInsensitive buf headerFieldDelimiter with
  | none => pure (maxLen, .none, st)
  | some _ =>
    match parseHttpVersion ⟨n, buf⟩ with
    | .error (.status _) =>
      pure (maxLen, .rejectRequest, { st with httpVersion := HttpVersion.http09.value })
    | .error stop => .error stop
    | .ok (v, _) =>
      let st := { st with httpVersion := v.value, phase := st.phase + 1 }
      if v = .http09 ∨ v = .http10 then pure (st.ogMaxLen, .none, st)
      else pure (maxLen, .none, st)

/-- `case 113`: the header is complete. -/
def recvContentLength (buf : Bytes) (n : Nat) (maxLen : Int) (st : HttpReceiveControllerState) :
    Except Stop (Int × RecvAction × HttpReceiveControllerState) :=
  match findAsciiSubstringCaseInsensitive buf contentLengthHeaderName with
  | none => pure (maxLen, .rejectRequest, st)
  | some line => do
    let (contentLength, terminator) ←
      strToUint (buf.drop (line + contentLengthHeaderName.length)) 0 false
    if 0 ≤ contentLength ∧ terminator.getD cr = cr then
      let st := { st with contentLength }
      let headerSize := getHeaderSize buf
      if 0 ≤ headerSize then
        let overshot := n - headerSize
        let total ← addSsize contentLength headerSize
        pure (optMin (total - overshot) st.ogMaxLen, .none, { st with phase := 999999 })
      else pure (maxLen, .none, { st with phase := st.phase + 1 })
    else pure (maxLen, .none, st)

/-- `case 112`: receive carefully until the end of the header, then fall through. -/
def recvHeader (buf : Bytes) (n : Nat) (maxLen : Int) (st : HttpReceiveControllerState) :
    Except Stop (Int × RecvAction × HttpReceiveControllerState) :=
  let offset := n - endOfHeader.length
  if n < endOfHeader.length ∨ getHeaderSize (buf.drop offset) < 0 then
    pure (nextByte n st.ogMaxLen, .none, st)
  else recvContentLength buf n maxLen { st with phase := st.phase + 1 }

/-- `case 114`. -/
def recvBody (buf : Bytes) (maxLen : Int) (st : HttpReceiveControllerState) :
    Except Stop (Int × RecvAction × HttpReceiveControllerState) :=
  let headerSize := getHeaderSize buf
  if 0 ≤ headerSize then do
    let total ← addSsize st.contentLength headerSize
    pure (optMin total st.ogMaxLen, .none, { st with phase := st.phase + 1 })
  else pure (maxLen, .rejectRequest, st)

def httpReceiveController : RecvController HttpReceiveControllerState :=
  fun buf _ n maxLen st =>
    match buf with
    | none => .error (.fault .assertFailed)
    | some buf =>
      match st.httpVersion * 10 + st.phase with
      | 0 =>
        if n ≠ 0 then .error (.fault .assertFailed)
        else pure (nextByte n maxLen, .none, { st with phase := st.phase + 1, ogMaxLen := maxLen })
      | 1 => recvFirstLine buf n st
      | 112 => recvHeader buf n maxLen st
      | 113 => recvContentLength buf n maxLen st
      | 114 => recvBody buf maxLen st
      | _ => pure (maxLen, .none, st)

end Net77.Http
