import Mathlib

/-!
# Kernel status codes

The `zx_status_t` values returned by the kernel code modelled in this
development.  Each is named after its `ZX_` constant in `zircon/errors.h`.
-/

namespace Zircon

/-- `zx_status_t`, restricted to the codes the modelled functions return. -/
inductive ZxStatus where
  | ok
  | errNotSupported
  | errInvalidArgs
  | errOutOfRange
  | errAlreadyExists
  | errAccessDenied
  | errWrongType
  | errBadState
  | errNotFound
  | errNoMemory
  | errShouldWait
  | errPeerClosed
  | errNoResources
  | errNoSpace
  deriving DecidableEq, Repr

end Zircon
