import WateRMQ.Lib.Run
import WateRMQ.Lib.While
import WateRMQ.Lib.CString
import WateRMQ.Lib.Memory
import WateRMQ.Lib.Struct
import WateRMQ.Lib.Block
import WateRMQ.Lib.Heap
import WateRMQ.Lib.Log
import WateRMQ.Lib.Named
import WateRMQ.Lib.Units
import WateRMQ.Lib.Ring
import WateRMQ.Lib.Assoc
import WateRMQ.Lib.BigEndian
import WateRMQ.Lib.Codec
import WateRMQ.Lib.Stream
import WateRMQ.Lib.Prog
import WateRMQ.Amqp.Wire
import WateRMQ.Amqp.Table
import WateRMQ.Amqp.Method
import WateRMQ.Amqp.Properties
import WateRMQ.Amqp.Capabilities
import WateRMQ.Amqp.Frame
import WateRMQ.Amqp.Input
import WateRMQ.Amqp.Receiving
import WateRMQ.Amqp.Sending
import WateRMQ.Amqp.Transmission
import WateRMQ.Amqp.Malformed
import WateRMQ.Amqp.Opening
import WateRMQ.Amqp.FrameQueue
import WateRMQ.Amqp.Pool
import WateRMQ.Amqp.Consumer
import WateRMQ.Amqp.EndToEnd
import WateRMQ.Amqp.Publishing
import WateRMQ.Amqp.Session
import WateRMQ.Amqp.Login
import WateRMQ.Backend.Queue
import WateRMQ.Backend.Refinement
import WateRMQ.Backend.Capacity
import WateRMQ.Backend.Layout
import WateRMQ.Backend.Instance
import WateRMQ.Backend.Lock
import WateRMQ.Backend.Duplication
import WateRMQ.Backend.Bridge
import WateRMQ.Backend.Returning
import WateRMQ.Backend.Consuming
import WateRMQ.Backend.Blocking
import WateRMQ.Backend.Arguments
import WateRMQ.Backend.Cursor
import WateRMQ.Backend.CommandLine
import WateRMQ.Backend.Skipping
import WateRMQ.Backend.Informations
import WateRMQ.Backend.Configuration
import WateRMQ.Backend.Constructors
import WateRMQ.Backend.Length
import WateRMQ.Backend.Status
import WateRMQ.Backend.Broker
import WateRMQ.Frontend.Queue
import WateRMQ.Frontend.Delivery
import WateRMQ.Frontend.Lock
import WateRMQ.Frontend.LifeCycle
import WateRMQ.Frontend.Sharing
import WateRMQ.Frontend.Pending
import WateRMQ.Frontend.Exclusion
import WateRMQ.Frontend.Freeing
import WateRMQ.Frontend.Handle
import WateRMQ.Frontend.Object
import WateRMQ.SharedQueue
import WateRMQ.CopyPath
import WateRMQ.BoundedBuffer
