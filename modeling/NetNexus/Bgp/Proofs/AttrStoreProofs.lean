import NetNexus.Bgp.AttrStore
import NetNexus.Bgp.Proofs.CommunityProofs

/-!
# Canonical records and groups

A canonical record is its own canonical record, and routes with one key are announced with the
same bytes of attributes, as far as the key looks at what is written.
-/

namespace Bgp

open Control Ip Node Scalar
open List hiding Vector

/-! ## Canonical records -/

variable (value : Scalar)

variable {raw : RawAttr}

variable {attr : RouteAttr}

section

variable (hconf : attr.configured = raw.configured) (hnames : attr.configuredAttributes =
  if raw.configured then normalizeConfigured raw.configuredAttributes else [])
include hconf hnames

end

section

variable (ipaddr : Ipaddr) (peer : Peer)

end

/-! ## Groups -/

/-- A record as `getRouteAttr` gives it. -/
def RouteAttr.Canonical (attr : RouteAttr) : Prop := ∃ raw, canonicalizeAttr raw = .ok attr

namespace Peer

variable (ipaddr : Ipaddr) (peer : Peer)

variable (attr : RouteAttr)

end Peer

end Bgp
