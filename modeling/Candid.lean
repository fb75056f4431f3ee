import Candid.Basic
import Candid.Registry
import Candid.TestContext
import Candid.Sched
import Candid.Store
import Candid.Idp
import Candid.Proof.TestContext
import Candid.Proof.Login
import Candid.Proof.Store
import Candid.Proof.Idp
