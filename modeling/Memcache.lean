import Memcache.Wire.Bytes
import Memcache.Wire.Utf8
import Memcache.Wire.Stream
import Memcache.Protocol.Session
import Memcache.Protocol.Ascii
import Memcache.Protocol.Command
import Memcache.Protocol.Replies
import Memcache.Protocol.Written
import Memcache.Protocol.Loops
import Memcache.Protocol.Faults
import Memcache.Client.Facade
import Memcache.Client.Grouping
import Memcache.Client.Pools
import Memcache.Client.Text
import Memcache.Client.Batch
import Memcache.Server.Request
import Memcache.Server.Memcached
import Memcache.Server.Answers
import Memcache.Server.Endpoint
import Memcache.Client.Cluster
import Memcache.Client.Isolation
import Memcache.Client.Timeouts
